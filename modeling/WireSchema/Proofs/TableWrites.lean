import WireSchema.Proofs.Acceptance

/-! A table under any run of writes. Its two parts, the entries and the index, stay in step; what it
finds under a name is what was last written there, and a name stands where it first came. -/
namespace WireSchema
namespace Table
variable {α : Type}

/-- A write to a table. -/
inductive Write (α : Type) where
  /-- Adds an entry, unless the name is taken. -/
  | insertNew (name : String) (a : α)
  /-- Adds an entry, or sets the value of the one that has the name. -/
  | upsert (name : String) (a : α)

/-- What a write answers: whether it added its entry, or which value it replaced. -/
inductive Answer (α : Type) where
  | inserted (done : Bool)
  | replaced (old : Option α)

namespace Write

def name : Write α → String
  | .insertNew name _ | .upsert name _ => name

def value : Write α → α
  | .insertNew _ a | .upsert _ a => a

/-- The table after a write, and the answer. -/
def run (t : Table α) : Write α → Table α × Answer α
  | .insertNew name a =>
    match t.insertNew? name a with
    | some t' => (t', .inserted true)
    | none => (t, .inserted false)
  | .upsert name a => ((t.upsert name a).1, .replaced (t.upsert name a).2)

/-- Where some names are taken, a write takes effect unless it is to add one of them. -/
def TakesEffect (taken : List String) : Write α → Prop
  | .insertNew name _ => name ∉ taken
  | .upsert _ _ => True

theorem takesEffect_congr {taken taken' : List String} (h : ∀ name, name ∈ taken ↔ name ∈ taken')
    (w : Write α) : w.TakesEffect taken ↔ w.TakesEffect taken' := by
  cases w with
  | insertNew name a => exact not_congr (h name)
  | upsert name a => rfl

end Write

/-- The table after some writes to an empty one. -/
def written (ws : List (Write α)) : Table α := ws.foldl (fun t w => (w.run t).1) ∅

/-- The value of the last write to that name that took effect. -/
def LastEffect (ws : List (Write α)) (name : String) (a : α) : Prop :=
  ∃ before w after, ws = before ++ w :: after ∧ w.name = name ∧ w.value = a ∧
    w.TakesEffect (before.map Write.name) ∧
    ∀ between v rest, after = between ++ v :: rest → v.name = name →
      ¬ v.TakesEffect ((before ++ w :: between).map Write.name)

/-- What holds of a table after some writes. -/
structure Follows (ws : List (Write α)) (t : Table α) : Prop where
  nodup : t.names.Nodup
  index : ∀ (name : String) (i : Nat),
    t.index[name]? = some i ↔ ∃ a, t.entries[i]? = some (name, a)
  in_range : ∀ (name : String) (i : Nat), t.index[name]? = some i → i < t.entries.size
  get? : ∀ name a, t.get? name = some a ↔ LastEffect ws name a
  contains : ∀ name, t.contains name = (t.get? name).isSome
  /-- The names in the order in which they first came. -/
  names : t.names = (ws.map Write.name).eraseDups
  /-- Each write on the way said whether it took effect. -/
  answers : ∀ before w after, ws = before ++ w :: after →
    ((w.run (written before)).2 = .inserted false ↔ ¬ w.TakesEffect (before.map Write.name))
  refused : ∀ name a, t.contains name = true →
    (Write.insertNew name a).run t = (t, .inserted false)
  /-- The value of one entry changes, and nothing else. -/
  replaced : ∀ name a, t.contains name = true → ∃ (i : Nat) (old : α),
    t.entries[i]? = some (name, old) ∧ (Write.upsert name a).run t =
      ({ t with entries := t.entries.setIfInBounds i (name, a) }, .replaced (some old))

/-! ## What a write does to the list of the entries -/

section Step
variable {l : List (String × α)} {w : Write α} {name : String} {a b : α}

/-- The entries after a write. -/
def enter (l : List (String × α)) : Write α → List (String × α)
  | .insertNew name a => if name ∈ l.map Prod.fst then l else l ++ [(name, a)]
  | .upsert name a =>
    if name ∈ l.map Prod.fst then l.map fun e => if e.1 = name then (name, a) else e
    else l ++ [(name, a)]

theorem enter_new (h : w.name ∉ l.map Prod.fst) : enter l w = l ++ [(w.name, w.value)] := by
  cases w <;> exact if_neg h

theorem keys_enter_known (h : w.name ∈ l.map Prod.fst) :
    (enter l w).map Prod.fst = l.map Prod.fst := by
  cases w with
  | insertNew name a =>
    have hold : enter l (.insertNew name a) = l := if_pos h
    rw [hold]
  | upsert name a =>
    have hset : enter l (.upsert name a) = l.map fun e => if e.1 = name then (name, a) else e :=
      if_pos h
    rw [hset, List.map_map]
    refine List.map_congr_left fun e _ => ?_
    simp only [Function.comp_apply]
    split <;> simp_all

theorem keys_enter_new (h : w.name ∉ l.map Prod.fst) :
    (enter l w).map Prod.fst = l.map Prod.fst ++ [w.name] := by
  rw [enter_new h, List.map_append, List.map_singleton]

/-- No write lists a name twice. -/
theorem nodup_enter (hl : (l.map Prod.fst).Nodup) : ((enter l w).map Prod.fst).Nodup := by
  by_cases h : w.name ∈ l.map Prod.fst
  · rwa [keys_enter_known h]
  · rw [enter_new h]
    exact nodup_keys_concat.2 ⟨hl, h⟩

/-- A value is under a name after a write if the write put it there, or if it was there before and
the write was to another name or without effect. -/
theorem mem_enter_iff :
    (name, a) ∈ enter l w ↔
      (w.name = name ∧ w.value = a ∧ w.TakesEffect (l.map Prod.fst)) ∨
        ((name, a) ∈ l ∧ (w.name = name → ¬ w.TakesEffect (l.map Prod.fst))) := by
  by_cases h : w.name ∈ l.map Prod.fst
  · cases w with
    | insertNew n b =>
      have hold : enter l (.insertNew n b) = l := if_pos h
      have hno : ¬ (Write.insertNew n b).TakesEffect (l.map Prod.fst) := not_not_intro h
      simp [hold, hno]
    | upsert n b =>
      have hset : enter l (.upsert n b) = l.map fun e => if e.1 = n then (n, b) else e := if_pos h
      have heffect : (Write.upsert n b).TakesEffect (l.map Prod.fst) := trivial
      rw [hset, List.mem_map]
      constructor
      · rintro ⟨e, he, heq⟩
        split at heq
        next hn =>
          cases heq
          exact Or.inl ⟨rfl, rfl, heffect⟩
        next hn =>
          subst heq
          exact Or.inr ⟨he, fun hn' => absurd hn'.symm hn⟩
      · rintro (⟨rfl, rfl, -⟩ | ⟨hm, hne⟩)
        · obtain ⟨e, he, hn⟩ := List.mem_map.1 h
          exact ⟨e, he, if_pos hn⟩
        · exact ⟨_, hm, if_neg fun hn => hne hn.symm heffect⟩
  · have heffect : w.TakesEffect (l.map Prod.fst) := by
      cases w with
      | insertNew n b => exact h
      | upsert n b => trivial
    rw [enter_new h, List.mem_append, List.mem_singleton, Prod.mk.injEq]
    constructor
    · rintro (hm | ⟨rfl, rfl⟩)
      · refine Or.inr ⟨hm, ?_⟩
        rintro rfl
        exact absurd (List.mem_map_of_mem hm) h
      · exact Or.inl ⟨rfl, rfl, heffect⟩
    · rintro (⟨rfl, rfl, -⟩ | ⟨hm, -⟩)
      · exact Or.inr ⟨rfl, rfl⟩
      · exact Or.inl hm

/-! The table of the entries after a write is the table after the write. -/

theorem run_insertNew_known (hl : (l.map Prod.fst).Nodup) (h : name ∈ l.map Prod.fst) :
    (Write.insertNew name a).run (ofList l) = (ofList l, .inserted false) := by
  have hnone := (insertNew?_eq_none_iff (sound_ofList hl) (a := a)).2 (by rwa [names_ofList])
  rw [Write.run, hnone]

theorem run_insertNew_new (hl : (l.map Prod.fst).Nodup) (h : name ∉ l.map Prod.fst) :
    (Write.insertNew name a).run (ofList l) = (ofList (l ++ [(name, a)]), .inserted true) := by
  have hsome := (insertNew?_eq_some_iff (sound_ofList hl) (a := a)).2 ⟨by rwa [names_ofList], rfl⟩
  rw [Write.run, hsome, ofList_concat]

/-- What a write does to a table, it does to the list of its entries. -/
theorem run_ofList_fst (hl : (l.map Prod.fst).Nodup) (w : Write α) :
    (w.run (ofList l)).1 = ofList (enter l w) := by
  cases w with
  | insertNew name a =>
    rw [enter]
    split
    next h => rw [run_insertNew_known hl h]
    next h => rw [run_insertNew_new hl h]
  | upsert name a =>
    rw [enter, Write.run]
    split
    next h =>
      obtain ⟨⟨_, old⟩, hm, rfl⟩ := List.mem_map.1 h
      rw [upsert_known hl hm]
    next h => rw [upsert_new hl h]

/-- A write that is without effect says so, and no other does. -/
theorem run_ofList_snd (hl : (l.map Prod.fst).Nodup) (w : Write α) :
    (w.run (ofList l)).2 = .inserted false ↔ ¬ w.TakesEffect (l.map Prod.fst) := by
  cases w with
  | insertNew name a =>
    by_cases h : name ∈ l.map Prod.fst
    · rw [run_insertNew_known hl h]
      exact ⟨fun _ => not_not_intro h, fun _ => rfl⟩
    · rw [run_insertNew_new hl h]
      exact ⟨fun heq => by simp at heq, fun hno => absurd h hno⟩
  | upsert name a => simp [Write.run, Write.TakesEffect]

end Step

/-! ## What a run of writes does -/

section Run
variable {ws : List (Write α)} {w : Write α} {name : String} {a : α}

/-- The entries after some writes. -/
def listing (ws : List (Write α)) : List (String × α) := ws.foldl enter []

theorem listing_concat (ws : List (Write α)) (w : Write α) :
    listing (ws ++ [w]) = enter (listing ws) w := List.foldl_concat ..

theorem nodup_listing (ws : List (Write α)) : ((listing ws).map Prod.fst).Nodup := by
  induction ws using List.reverseRecOn with
  | nil => exact List.nodup_nil
  | append_singleton ws w ih =>
    rw [listing_concat]
    exact nodup_enter ih

/-- So a table that is only written to is the table of a list. -/
theorem written_eq_ofList (ws : List (Write α)) : written ws = ofList (listing ws) := by
  induction ws using List.reverseRecOn with
  | nil => rfl
  | append_singleton ws w ih =>
    rw [written, List.foldl_concat, ← written, ih, run_ofList_fst (nodup_listing ws),
      listing_concat]

/-- A name stands where it was first written to, in whatever way. -/
theorem keys_listing (ws : List (Write α)) :
    (listing ws).map Prod.fst = (ws.map Write.name).eraseDups := by
  induction ws using List.reverseRecOn with
  | nil => rfl
  | append_singleton ws w ih =>
    have hmem : w.name ∈ (listing ws).map Prod.fst ↔ w.name ∈ ws.map Write.name := by
      rw [ih, List.mem_eraseDups]
    rw [listing_concat, List.map_append, List.map_singleton]
    by_cases h : w.name ∈ (listing ws).map Prod.fst
    · rw [keys_enter_known h, ih, Schema.eraseDups_concat_known (hmem.1 h)]
    · rw [keys_enter_new h, ih, Schema.eraseDups_concat_new (mt hmem.2 h)]

theorem takesEffect_listing :
    w.TakesEffect ((listing ws).map Prod.fst) ↔ w.TakesEffect (ws.map Write.name) :=
  Write.takesEffect_congr (fun name => by rw [keys_listing, List.mem_eraseDups]) w

/-- One write more: it is the last one to take effect, or the last one was before it. -/
theorem lastEffect_concat_iff :
    LastEffect (ws ++ [w]) name a ↔
      (w.name = name ∧ w.value = a ∧ w.TakesEffect (ws.map Write.name)) ∨
        (LastEffect ws name a ∧ (w.name = name → ¬ w.TakesEffect (ws.map Write.name))) := by
  constructor
  · rintro ⟨before, v, after, heq, hname, hvalue, heffect, hlast⟩
    rcases List.eq_nil_or_concat' after with rfl | ⟨after, u, rfl⟩
    · obtain ⟨rfl, hv⟩ := List.append_inj' heq rfl
      cases hv
      exact Or.inl ⟨hname, hvalue, heffect⟩
    · have heq' : ws ++ [w] = (before ++ v :: after) ++ [u] := by simpa using heq
      obtain ⟨rfl, hu⟩ := List.append_inj' heq' rfl
      cases hu
      refine Or.inr ⟨⟨before, v, after, rfl, hname, hvalue, heffect, ?_⟩, hlast after w [] rfl⟩
      intro between u rest hrest
      exact hlast between u (rest ++ [w]) (by simp [hrest])
  · rintro (⟨hname, hvalue, heffect⟩ | ⟨⟨before, v, after, rfl, hname, hvalue, heffect, hlast⟩, hw⟩)
    · exact ⟨ws, w, [], rfl, hname, hvalue, heffect, by simp⟩
    · refine ⟨before, v, after ++ [w], by simp, hname, hvalue, heffect, ?_⟩
      intro between u rest hrest
      rcases List.eq_nil_or_concat' rest with rfl | ⟨rest, x, rfl⟩
      · obtain ⟨rfl, hu⟩ := List.append_inj' hrest rfl
        cases hu
        exact hw
      · have hrest' : after ++ [w] = (between ++ u :: rest) ++ [x] := by simpa using hrest
        exact hlast between u rest (List.append_inj' hrest' rfl).1

/-- What is listed under a name was written there last. -/
theorem mem_listing_iff : (name, a) ∈ listing ws ↔ LastEffect ws name a := by
  induction ws using List.reverseRecOn with
  | nil => simp [listing, LastEffect]
  | append_singleton ws w ih =>
    rw [listing_concat, mem_enter_iff, lastEffect_concat_iff, ih, takesEffect_listing]

end Run

theorem Sound.index_iff {t : Table α} (h : t.Sound) {name : String} {i : Nat} :
    t.index[name]? = some i ↔ ∃ a, t.entries[i]? = some (name, a) := by
  have hnames : t.names[i]? = (t.entries[i]?).map Prod.fst := by simp [names, toList]
  rw [h.index, hnames, Option.map_eq_some_iff]
  constructor
  · rintro ⟨⟨_, a⟩, he, rfl⟩
    exact ⟨a, he⟩
  · rintro ⟨a, he⟩
    exact ⟨(name, a), he, rfl⟩

/-- After any run of writes the entries and the index tell the same, a name leads to what was last
written to it with effect, and the names stand in the order of their first writes. A further write
to a known name is refused without any change, or replaces the value of one entry. -/
theorem written_follows (ws : List (Write α)) : Follows ws (written ws) := by
  have hl := nodup_listing ws
  have hs := sound_ofList hl
  rw [written_eq_ofList]
  exact {
    nodup := hs.nodup
    index := fun _ _ => hs.index_iff
    in_range := by
      intro name i hi
      obtain ⟨a, ha⟩ := hs.index_iff.1 hi
      exact (Array.getElem?_eq_some_iff.1 ha).1
    get? := by
      intro name a
      rw [get?_eq_some_iff hs, toList_ofList, mem_listing_iff]
    contains := by
      intro name
      rw [Bool.eq_iff_iff, contains_iff hs, Option.isSome_iff_exists]
      simp only [get?_eq_some_iff hs]
      simp [names]
    names := by rw [names_ofList, keys_listing]
    answers := by
      rintro before w after rfl
      rw [written_eq_ofList, run_ofList_snd (nodup_listing before), takesEffect_listing]
    refused := by
      intro name a h
      rw [contains_iff hs, names_ofList] at h
      exact run_insertNew_known hl h
    replaced := by
      intro name a h
      rw [contains, Std.TreeMap.contains_eq_isSome_getElem?, Option.isSome_iff_exists] at h
      obtain ⟨i, hi⟩ := h
      obtain ⟨old, hold⟩ := hs.index_iff.1 hi
      refine ⟨i, old, hold, ?_⟩
      simp only [Write.run, upsert, hi, hold, Option.map_some] }

end Table
end WireSchema
