import WireSchema.Proofs.Outcomes
import WireSchema.Table

/-! Tables by what they list. A sound table finds a name exactly where it lists it, and a table
that is filled name by name is the table of a list. -/
namespace WireSchema

namespace Table
variable {α β ε : Type} {t : Table α} {name : String} {a : α}

@[simp] theorem names_empty : (∅ : Table α).names = [] := rfl

@[simp] theorem names_push : (t.push name a).names = t.names ++ [name] := by
  simp [names]

@[simp] theorem length_names : t.names.length = t.size := by
  simp [names]

/-- No name is listed twice, and the index leads to the place of each name. -/
structure Sound (t : Table α) : Prop where
  nodup : t.names.Nodup
  index : ∀ (name : String) (i : Nat), t.index[name]? = some i ↔ t.names[i]? = some name

theorem sound_empty : (∅ : Table α).Sound := by
  refine ⟨List.nodup_nil, fun name i => ?_⟩
  have hi : (∅ : Table α).index = ∅ := rfl
  simp [hi]

/-- A new name at the end takes the place that the index gives it. -/
theorem sound_push (h : t.Sound) (hn : name ∉ t.names) : (t.push name a).Sound := by
  constructor
  · rw [names_push, List.nodup_append]
    refine ⟨h.nodup, by simp, ?_⟩
    rintro n hm m hs rfl
    exact hn (List.mem_singleton.1 hs ▸ hm)
  · intro n i
    have hi : (t.push name a).index = t.index.insert name t.size := rfl
    have hlen : t.size ≤ i → t.names[i]? = none := fun hl => by simpa using hl
    rw [hi, Std.TreeMap.getElem?_insert, names_push, List.getElem?_append, length_names]
    by_cases hc : name = n
    · subst n
      have hno : t.names[i]? ≠ some name := fun he => hn (List.mem_of_getElem? he)
      rw [if_pos Std.ReflCmp.compare_self, List.getElem?_singleton, Option.some.injEq]
      split
      · simp only [hno, iff_false]
        omega
      · rw [ite_eq_left_iff]
        simp only [reduceCtorEq, imp_false, not_not]
        omega
    · rw [if_neg (mt Std.LawfulEqCmp.eq_of_compare hc), h.index, List.getElem?_singleton]
      split
      · rfl
      next hl =>
        rw [hlen (Nat.le_of_not_lt hl)]
        split <;> simp [hc]

/-- To look a name up in the index is to look for it in the list. -/
theorem contains_iff (h : t.Sound) : t.contains name = true ↔ name ∈ t.names := by
  rw [contains, Std.TreeMap.contains_eq_isSome_getElem?, Option.isSome_iff_exists,
    List.mem_iff_getElem?]
  exact exists_congr fun i => h.index name i

/-- What is found under a name is what is listed with it. -/
theorem get?_eq_some_iff (h : t.Sound) : t.get? name = some a ↔ (name, a) ∈ t.toList := by
  have hn : ∀ i : Nat, t.names[i]? = (t.entries[i]?).map Prod.fst := by simp [names, toList]
  simp only [get?, bind, Option.bind_eq_some_iff, h.index, hn, pure, Option.map_eq_some_iff,
    Option.some.injEq, toList, Array.mem_toList_iff, Array.mem_iff_getElem?]
  constructor
  · rintro ⟨i, ⟨e, he, rfl⟩, e', he', rfl⟩
    rw [he] at he'
    cases he'
    exact ⟨i, he⟩
  · rintro ⟨i, he⟩
    exact ⟨i, ⟨_, he, rfl⟩, _, he, rfl⟩

theorem exists_get?_of_mem_names (h : t.Sound) (hn : name ∈ t.names) :
    ∃ a, t.get? name = some a := by
  obtain ⟨⟨_, a⟩, he, rfl⟩ := List.mem_map.1 hn
  exact ⟨a, (get?_eq_some_iff h).2 he⟩

theorem insertNew?_eq_some_iff (h : t.Sound) {t' : Table α} :
    t.insertNew? name a = some t' ↔ name ∉ t.names ∧ t' = t.push name a := by
  rw [insertNew?, ← contains_iff h]
  split
  next hc => simp [hc]
  next hc => simp [hc, eq_comm]

/-- A name is refused exactly if it is known. -/
theorem insertNew?_eq_none_iff (h : t.Sound) : t.insertNew? name a = none ↔ name ∈ t.names := by
  rw [insertNew?, ← contains_iff h]
  split
  next hc => simp [hc]
  next hc => simp [hc]

/-- The table that lists these entries. -/
def ofList (entries : List (String × α)) : Table α :=
  entries.foldl (fun t e => t.push e.1 e.2) ∅

@[simp] theorem ofList_nil : ofList ([] : List (String × α)) = ∅ := rfl

theorem ofList_concat (l : List (String × α)) (e : String × α) :
    ofList (l ++ [e]) = (ofList l).push e.1 e.2 := by
  simp [ofList]

/-- A table that is filled from a list lists just that. -/
@[simp] theorem toList_ofList (l : List (String × α)) : (ofList l).toList = l := by
  induction l using List.reverseRecOn with
  | nil => rfl
  | append_singleton l e ih => rw [ofList_concat, toList_push, ih]

@[simp] theorem names_ofList (l : List (String × α)) : (ofList l).names = l.map Prod.fst := by
  simp [names]

@[simp] theorem size_ofList (l : List (String × α)) : (ofList l).size = l.length := by
  rw [← length_names, names_ofList, List.length_map]

theorem nodup_keys_concat {l : List (String × α)} {e : String × α} :
    ((l ++ [e]).map Prod.fst).Nodup ↔ (l.map Prod.fst).Nodup ∧ e.1 ∉ l.map Prod.fst := by
  rw [List.map_append, List.map_singleton, List.nodup_append_comm, List.singleton_append,
    List.nodup_cons, and_comm]

/-- A list without a repeated name makes a sound table. -/
theorem sound_ofList {l : List (String × α)} (h : (l.map Prod.fst).Nodup) : (ofList l).Sound := by
  induction l using List.reverseRecOn with
  | nil => exact sound_empty
  | append_singleton l e ih =>
    obtain ⟨hl, he⟩ := nodup_keys_concat.1 h
    rw [ofList_concat]
    exact sound_push (ih hl) (by rwa [names_ofList])

/-- The index knows of nothing but the names. -/
theorem index_ofList_congr {l : List (String × α)} {l' : List (String × β)}
    (h : l.map Prod.fst = l'.map Prod.fst) : (ofList l).index = (ofList l').index := by
  induction l using List.reverseRecOn generalizing l' with
  | nil =>
    obtain rfl : l' = [] := by simpa using h.symm
    rfl
  | append_singleton l e ih =>
    obtain ⟨k, e', rfl⟩ : ∃ k e', l' = k ++ [e'] := by
      rcases List.eq_nil_or_concat' l' with rfl | hl'
      · simp at h
      · exact hl'
    simp only [List.map_append, List.map_cons, List.map_nil] at h
    obtain ⟨hk, he⟩ := List.append_inj' h rfl
    have hl : (ofList l).entries.size = (ofList k).entries.size := by
      change (ofList l).size = (ofList k).size
      simpa using congrArg List.length hk
    rw [ofList_concat, ofList_concat, push, push, hl]
    simp only [ih hk, List.cons.inj he]

/-- A table is known by its list and its index. -/
theorem eq_ofList {l : List (String × α)} (he : t.toList = l)
    (hi : t.index = (ofList l).index) : t = ofList l := by
  obtain ⟨entries, index⟩ := t
  have h : entries = (ofList l).entries := by
    rw [← Array.toList_inj]
    exact he.trans (toList_ofList l).symm
  cases h
  cases hi
  rfl

/-- The index is that of a list. -/
def Listed (t : Table α) : Prop := t = ofList t.toList

theorem listed_ofList (l : List (String × α)) : (ofList l).Listed := by
  rw [Listed, toList_ofList]

/-- A table with the index of its list keeps it when its values are replaced. -/
theorem Listed.map_eq (h : t.Listed) (f : α → β) :
    t.map f = ofList (t.toList.map fun e => (e.1, f e.2)) := by
  have hindex : t.index = (ofList t.toList).index := congrArg Table.index h
  refine eq_ofList (t.toList_map f) (hindex.trans (index_ofList_congr ?_))
  simp [Function.comp_def]

theorem map_ofList (f : α → β) (l : List (String × α)) :
    (ofList l).map f = ofList (l.map fun e => (e.1, f e.2)) := by
  rw [(listed_ofList l).map_eq, toList_ofList]

/-- A step that adds one entry, and adds it exactly if the key is new and the thing is good. Its
value may depend on the place it gets. -/
def Fills (step : Table β → α → Except ε (Table β)) (key : α → String) (Good : α → Prop)
    (value : Nat → α → β) : Prop :=
  ∀ ⦃t : Table β⦄ ⦃x : α⦄ ⦃t' : Table β⦄, t.Sound →
    (step t x = .ok t' ↔ key x ∉ t.names ∧ Good x ∧ t' = t.push (key x) (value t.size x))

section Filling
variable {step : Table β → α → Except ε (Table β)} {key : α → String} {Good : α → Prop}
  {value : Nat → α → β}

/-- The loop that fills a table, from any table of a list on: names are new, things are good, and
each entry is put behind those before it. -/
theorem foldlM_from_ofList (hs : Fills step key Good value) (xs : List α)
    {l : List (String × β)} (hl : (l.map Prod.fst).Nodup) {t : Table β} :
    xs.foldlM step (ofList l) = .ok t ↔
      (l.map Prod.fst ++ xs.map key).Nodup ∧ (∀ x ∈ xs, Good x) ∧
        t = ofList (l ++ xs.mapIdx fun i x => (key x, value (l.length + i) x)) := by
  induction xs generalizing l with
  | nil => simp [hl, pure, Except.pure, eq_comm]
  | cons x xs ih =>
    have hstep {t' : Table β} : step (ofList l) x = .ok t' ↔ key x ∉ l.map Prod.fst ∧ Good x ∧
        t' = ofList (l ++ [(key x, value l.length x)]) := by
      rw [hs (sound_ofList hl), ofList_concat, names_ofList, size_ofList]
    have hnodup (hx : key x ∉ l.map Prod.fst) :
        ((l ++ [(key x, value l.length x)]).map Prod.fst).Nodup :=
      nodup_keys_concat.2 ⟨hl, hx⟩
    have happ : l.map Prod.fst ++ (x :: xs).map key =
        (l ++ [(key x, value l.length x)]).map Prod.fst ++ xs.map key := by simp
    have hidx : (x :: xs).mapIdx (fun i x => (key x, value (l.length + i) x)) =
        (key x, value l.length x) ::
          xs.mapIdx fun i x => (key x, value (l.length + 1 + i) x) := by
      simp [List.mapIdx_cons, Nat.add_assoc, Nat.add_comm 1]
    rw [List.foldlM_cons, bind_eq_ok, happ, hidx]
    constructor
    · rintro ⟨t', ht', hrest⟩
      obtain ⟨hx, hg, rfl⟩ := hstep.1 ht'
      obtain ⟨hn, hgs, rfl⟩ := (ih (hnodup hx)).1 hrest
      exact ⟨hn, List.forall_mem_cons.2 ⟨hg, hgs⟩, by simp⟩
    · rintro ⟨hn, hgs, rfl⟩
      obtain ⟨hg, hgs⟩ := List.forall_mem_cons.1 hgs
      have hx : key x ∉ l.map Prod.fst := (nodup_keys_concat.1 (List.nodup_append.1 hn).1).2
      exact ⟨_, hstep.2 ⟨hx, hg, rfl⟩, (ih (hnodup hx)).2 ⟨hn, hgs, by simp⟩⟩

/-- What filling a table gives, when it gives anything. -/
theorem foldlM_eq_ok_iff (hs : Fills step key Good value) {xs : List α} {t : Table β} :
    xs.foldlM step ∅ = .ok t ↔ (xs.map key).Nodup ∧ (∀ x ∈ xs, Good x) ∧
      t = ofList (xs.mapIdx fun i x => (key x, value i x)) := by
  simpa using foldlM_from_ofList hs xs (l := []) List.nodup_nil (t := t)

/-- The same for values that do not depend on their places. -/
theorem foldlM_eq_ok_iff_map {value : α → β} (hs : Fills step key Good fun _ => value)
    {xs : List α} {t : Table β} :
    xs.foldlM step ∅ = .ok t ↔ (xs.map key).Nodup ∧ (∀ x ∈ xs, Good x) ∧
      t = ofList (xs.map fun x => (key x, value x)) := by
  have hmap : (xs.mapIdx fun _ x => (key x, value x)) = xs.map fun x => (key x, value x) := by
    apply List.ext_getElem?
    simp
  rw [foldlM_eq_ok_iff hs, hmap]

end Filling

theorem mapM_list_eq_ok_iff {γ : Type} (f : α → Except ε β) (item : γ → α) (Good : γ → Prop)
    (value : γ → β) {xs : List γ} (hf : ∀ x ∈ xs, ∀ b, f (item x) = .ok b ↔ Good x ∧ b = value x)
    {ys : List β} :
    (xs.map item).mapM f = .ok ys ↔ (∀ x ∈ xs, Good x) ∧ ys = xs.map value := by
  induction xs generalizing ys with
  | nil => simp [pure, Except.pure, eq_comm]
  | cons x xs ih =>
    obtain ⟨hx, hxs⟩ := List.forall_mem_cons.1 hf
    simp only [List.map_cons, List.mapM_cons, bind_eq_ok, hx, ih hxs, pure, Except.pure,
      Except.ok.injEq, List.forall_mem_cons]
    constructor
    · rintro ⟨b, ⟨hg, rfl⟩, bs, ⟨hgs, rfl⟩, rfl⟩
      exact ⟨⟨hg, hgs⟩, rfl⟩
    · rintro ⟨⟨hg, hgs⟩, rfl⟩
      exact ⟨_, ⟨hg, rfl⟩, _, ⟨hgs, rfl⟩, rfl⟩

/-- What comes of each entry of a listed table, when something comes of all. -/
theorem mapM_ofList_eq_ok_iff {γ : Type} (f : String → α → Except ε β) (key : γ → String)
    (item : γ → α) (Good : γ → Prop) (value : γ → β) {xs : List γ}
    (hf : ∀ x ∈ xs, ∀ b, f (key x) (item x) = .ok b ↔ Good x ∧ b = value x) {t : Table β} :
    (ofList (xs.map fun x => (key x, item x))).mapM f = .ok t ↔
      (∀ x ∈ xs, Good x) ∧ t = ofList (xs.map fun x => (key x, value x)) := by
  have hlist {es : List (String × β)} :
      ((xs.map fun x => (key x, item x)).mapM fun e => do return (e.1, ← f e.1 e.2)) = .ok es ↔
        (∀ x ∈ xs, Good x) ∧ es = xs.map fun x => (key x, value x) := by
    refine mapM_list_eq_ok_iff _ _ Good _ fun x hx e => ?_
    simp only [bind_eq_ok, hf x hx, pure, Except.pure, Except.ok.injEq]
    constructor
    · rintro ⟨b, ⟨hg, rfl⟩, rfl⟩
      exact ⟨hg, rfl⟩
    · rintro ⟨hg, rfl⟩
      exact ⟨_, ⟨hg, rfl⟩, rfl⟩
  have hentries : (ofList (xs.map fun x => (key x, item x))).entries.toList =
      xs.map fun x => (key x, item x) := toList_ofList _
  have htable : (⟨(xs.map fun x => (key x, value x)).toArray,
      (ofList (xs.map fun x => (key x, item x))).index⟩ : Table β) =
        ofList (xs.map fun x => (key x, value x)) :=
    eq_ofList rfl (index_ofList_congr (by simp [Function.comp_def]))
  simp only [mapM, bind_eq_ok, Array.mapM_eq_mapM_toList, map_eq_ok, pure, Except.pure,
    Except.ok.injEq, hentries]
  constructor
  · rintro ⟨_, ⟨es, hm, rfl⟩, rfl⟩
    obtain ⟨hg, rfl⟩ := hlist.1 hm
    exact ⟨hg, htable⟩
  · rintro ⟨hg, rfl⟩
    exact ⟨_, ⟨_, hlist.2 ⟨hg, rfl⟩, rfl⟩, htable⟩

section Writing
variable {l : List (String × α)} (hl : (l.map Prod.fst).Nodup)
include hl

/-- A name that is new goes to the end. -/
theorem upsert_new (hn : name ∉ l.map Prod.fst) :
    (ofList l).upsert name a = (ofList (l ++ [(name, a)]), none) := by
  have hi : (ofList l).index[name]? = none := by
    rw [Option.eq_none_iff_forall_ne_some]
    intro i hi
    have hm := List.mem_of_getElem? (((sound_ofList hl).index name i).1 hi)
    exact hn (by rwa [names_ofList] at hm)
  rw [upsert, hi, ofList_concat]

/-- A known name keeps its place, and so does every other entry. -/
theorem upsert_known {old : α} (hm : (name, old) ∈ l) :
    (ofList l).upsert name a =
      (ofList (l.map fun e => if e.1 = name then (name, a) else e), some old) := by
  obtain ⟨i, hi⟩ := List.mem_iff_getElem?.1 hm
  have hindex : (ofList l).index[name]? = some i := by
    rw [(sound_ofList hl).index, names_ofList, List.getElem?_map, hi]
    rfl
  have hentry : (ofList l).entries[i]? = some (name, old) := by
    rw [← Array.getElem?_toList]
    exact (congrArg (·[i]?) (toList_ofList l)).trans hi
  have hset : l.set i (name, a) = l.map fun e => if e.1 = name then (name, a) else e := by
    apply List.ext_getElem?
    intro j
    rw [List.getElem?_set, List.getElem?_map]
    split
    next hij =>
      subst j
      rw [if_pos (List.getElem?_eq_some_iff.1 hi).1, hi, Option.map_some, if_pos rfl]
    next hij =>
      cases hj : l[j]? with
      | none => rfl
      | some e =>
        have hne : e.1 ≠ name := by
          intro he
          refine hij ((List.getElem?_inj (l := l.map Prod.fst) ?_ hl).1 ?_)
          · simpa using (List.getElem?_eq_some_iff.1 hi).1
          · simp [hi, hj, he]
        simp [hne]
  have hkeys : l.map Prod.fst = (l.set i (name, a)).map Prod.fst := by
    rw [hset, List.map_map]
    refine List.map_congr_left fun e _ => ?_
    simp only [Function.comp_apply]
    split <;> simp_all
  rw [upsert, hindex, ← hset]
  refine Prod.ext (eq_ofList ?_ (index_ofList_congr hkeys)) ?_
  · simp only [toList, Array.toList_setIfInBounds]
    exact congrArg (·.set i (name, a)) (toList_ofList l)
  · simp [hentry]

end Writing

end Table
end WireSchema
