import WireSchema.ErrorReport.Reader
import WireSchema.Proofs.JsonReading

/-! Error reports survive their JSON. An object tells a report by its members: neither their order
nor the blanks between them matter, and a part that the report lacks may be left out or be `null`.
Each of the written forms is such an object. -/
namespace WireSchema
namespace Json.Reader
variable {j : Json} {t : List Char}

/-! ## Parts of an object -/

theorem string?_spaced {s : String} (h : (Json.str s).Spaced t) : string? t = some s := by
  obtain rfl : t = strText s := h
  have hread := readString_strText s []
  simp [string?, strText, hread]

theorem natBelow?_spaced {n limit : Nat} (hn : n < limit) (h : (Json.int n).Spaced t) :
    natBelow? limit t = some n := by
  obtain rfl : t = Nat.toDigits 10 n := by
    have ht : t = (toString (n : Int)).toList := h
    rw [toList_toString_int] at ht
    simpa [decimalText, minus, show ¬ (n : Int) < 0 by omega] using ht
  have hdigits : (Nat.toDigits 10 n).all (isDigitOf 10) = true := by
    rw [List.all_eq_true]
    exact digits_toDigits n
  have hvalue : natOfDigits 10 (Nat.toDigits 10 n) = n := by
    rw [natOfDigits_eq, digitsValue_toDigits]
  rw [natBelow?, hvalue, if_pos ⟨Nat.toDigits_ne_nil, hdigits, hn⟩]

/-- No other value has the text of `null`. -/
theorem isNull_spaced (hj : j.FloatFree) (hkind : j.kind ≠ .null) (h : j.Spaced t) :
    isNull t = false := by
  obtain ⟨c, cs, rfl, -, hc, -⟩ := exists_head_of_spaced hj h
  simp only [isNull, decide_eq_false_iff_not]
  intro hnull
  rw [(List.cons.inj hnull).1] at hc
  exact hkind hc.symm

theorem array?_of_object {ms : List (String × Json)} (h : (Json.obj ms).Spaced t) :
    array? t = none := by
  obtain ⟨ts, rfl, -⟩ := h
  simp [array?, enclosed?]

section Members
variable {ms : List (String × Json)} {ps : List (String × List Char)} {key : String}

theorem filter_of_not_mem (h : List.Forall₂ Tells ms ps) (hkey : key ∉ ms.map Prod.fst) :
    (ps.filter fun p => p.1 = key) = [] := by
  induction h with
  | nil => rfl
  | @cons m p ms ps hm _ ih =>
    rw [List.map_cons, List.mem_cons, not_or] at hkey
    have hne : p.1 ≠ key := by
      rw [← hm.1]
      exact Ne.symm hkey.1
    rw [List.filter_cons_of_neg (by simpa using hne), ih hkey.2]

theorem get?_of_not_mem (h : List.Forall₂ Tells ms ps) (hkey : key ∉ ms.map Prod.fst) :
    get? ps key = some none := by
  rw [get?, filter_of_not_mem h hkey]

/-- A key that comes once is found, and its value is read from the text it has there. -/
theorem get?_of_mem (h : List.Forall₂ Tells ms ps) (hnodup : (ms.map Prod.fst).Nodup)
    (hm : (key, j) ∈ ms) : ∃ t, get? ps key = some (some t) ∧ j.Spaced t := by
  suffices hfilter : ∃ t, (ps.filter fun p => p.1 = key) = [(key, t)] ∧ j.Spaced t by
    obtain ⟨t, ht, hj⟩ := hfilter
    exact ⟨t, by rw [get?, ht], hj⟩
  induction h with
  | nil => cases hm
  | @cons m p ms ps htells hrest ih =>
    rw [List.map_cons, List.nodup_cons] at hnodup
    rcases List.mem_cons.1 hm with rfl | hm
    · obtain ⟨name, t⟩ := p
      obtain ⟨rfl, hj⟩ : key = name ∧ j.Spaced t := htells
      refine ⟨t, ?_, hj⟩
      rw [List.filter_cons_of_pos (by simp), filter_of_not_mem hrest hnodup.1]
    · have hne : p.1 ≠ key := by
        rw [← htells.1]
        rintro rfl
        exact hnodup.1 (List.mem_map.2 ⟨_, hm, rfl⟩)
      rw [List.filter_cons_of_neg (by simpa using hne)]
      exact ih hnodup.2 hm

theorem required?_of_mem {α : Type} {read? : List Char → Option α} {a : α}
    (h : List.Forall₂ Tells ms ps) (hnodup : (ms.map Prod.fst).Nodup) (hm : (key, j) ∈ ms)
    (hread : ∀ t, j.Spaced t → read? t = some a) : required? ps key read? = some a := by
  obtain ⟨t, ht, hj⟩ := get?_of_mem h hnodup hm
  rw [required?, ht]
  exact hread t hj

/-- What an object says of a part that may be missing, if `Means` says which values mean which
parts. -/
def Part {α : Type} (ms : List (String × Json)) (key : String) (Means : Json → α → Prop) :
    Option α → Prop
  | none => key ∉ ms.map Prod.fst ∨ (key, Json.null) ∈ ms
  | some a => ∃ j, Means j a ∧ (key, j) ∈ ms

/-- A part that is optional is read if it is there, and may be missing or `null` otherwise. -/
theorem optional?_of_part {α : Type} {read? : List Char → Option α} {Means : Json → α → Prop}
    {part : Option α} (h : List.Forall₂ Tells ms ps) (hnodup : (ms.map Prod.fst).Nodup)
    (hpart : Part ms key Means part)
    (hread : ∀ j a t, part = some a → Means j a → j.Spaced t →
      isNull t = false ∧ read? t = some a) : optional? ps key read? = some part := by
  cases part with
  | none =>
    rcases hpart with hkey | hnull
    · rw [optional?, get?_of_not_mem h hkey]
      rfl
    · obtain ⟨t, ht, hj⟩ := get?_of_mem h hnodup hnull
      obtain rfl : t = ['n', 'u', 'l', 'l'] := hj
      rw [optional?, ht]
      rfl
  | some a =>
    obtain ⟨j, hmeans, hm⟩ := hpart
    obtain ⟨t, ht, hj⟩ := get?_of_mem h hnodup hm
    obtain ⟨hnull, hread⟩ := hread j a t rfl hmeans hj
    rw [optional?, ht]
    simp [nullable?, hnull, hread]

/-- The order of the members does not matter. -/
theorem Part.perm {α : Type} {Means : Json → α → Prop} {part : Option α}
    {ms' : List (String × Json)} (hp : ms.Perm ms') (h : Part ms key Means part) :
    Part ms' key Means part := by
  cases part with
  | none =>
    rcases h with hkey | hnull
    · exact .inl (mt ((hp.map Prod.fst).mem_iff.2) hkey)
    · exact .inr (hp.mem_iff.1 hnull)
  | some a =>
    obtain ⟨j, hmeans, hm⟩ := h
    exact ⟨j, hmeans, hp.mem_iff.1 hm⟩

theorem part_of_member? {α : Type} {Means : Json → α → Prop} {part : Option α} (toJson : α → Json)
    (hsome : ∀ a, part = some a → (key, toJson a) ∈ ms)
    (hnone : part = none → key ∉ ms.map Prod.fst) (hmeans : ∀ a, Means (toJson a) a) :
    Part ms key Means part := by
  cases part with
  | none => exact .inl (hnone rfl)
  | some a => exact ⟨toJson a, hmeans a, hsome a rfl⟩

theorem part_of_orNull {α : Type} {Means : Json → α → Prop} {part : Option α} (toJson : α → Json)
    (hm : (key, (orNull toJson part).sorted) ∈ ms) (hmeans : ∀ a, Means (toJson a).sorted a) :
    Part ms key Means part := by
  cases part with
  | none => exact .inr hm
  | some a => exact ⟨(toJson a).sorted, hmeans a, hm⟩

end Members
end Json.Reader

open Json Json.Reader

/-! ## Places -/

namespace Location
variable {loc : Location} {j : Json}

/-- The value gives the line and the column. -/
def Told (j : Json) (loc : Location) : Prop :=
  ∃ ms, j = .obj ms ∧ FloatFreeMembers ms ∧ (ms.map Prod.fst).Nodup ∧
    ("line", Json.int loc.line.toNat) ∈ ms ∧ ("column", Json.int loc.column.toNat) ∈ ms

theorem told_of_perm {ms : List (String × Json)}
    (hp : ms.Perm [("line", .int loc.line.toNat), ("column", .int loc.column.toNat)]) :
    Told (.obj ms) loc := by
  refine ⟨ms, rfl, floatFreeMembers_iff.2 fun m hm => ?_, ?_, ?_, ?_⟩
  · rw [hp.mem_iff, List.mem_pair] at hm
    rcases hm with rfl | rfl <;> trivial
  · rw [(hp.map Prod.fst).nodup_iff]
    simp
  · simp [hp.mem_iff]
  · simp [hp.mem_iff]

theorem told_json (loc : Location) : Told loc.json loc := told_of_perm (.refl _)

theorem told_sorted (loc : Location) : Told loc.json.sorted loc :=
  told_of_perm (List.mergeSort_perm _ _)

/-- A place is read back, since its numbers have 32 bits. -/
theorem ofJsonText?_of_told {t : List Char} (hj : Told j loc) (ht : j.Spaced t) :
    isNull t = false ∧ ofJsonText? t = some loc := by
  obtain ⟨ms, rfl, hfree, hnodup, hline, hcolumn⟩ := hj
  obtain ⟨ps, hps, htells⟩ := object?_spaced hfree ht
  have hline : required? ps "line" (natBelow? 0x100000000) = some loc.line.toNat :=
    required?_of_mem htells hnodup hline fun t => natBelow?_spaced loc.line.toNat_lt
  have hcolumn : required? ps "column" (natBelow? 0x100000000) = some loc.column.toNat :=
    required?_of_mem htells hnodup hcolumn fun t => natBelow?_spaced loc.column.toNat_lt
  refine ⟨isNull_spaced (j := .obj ms) hfree (by simp [kind]) ht, ?_⟩
  simp only [ofJsonText?, array?_of_object ht, hps]
  simp [hline, hcolumn]

end Location

/-! ## Reports -/

namespace ErrorReport
variable {r : ErrorReport} {ms ms' : List (String × Json)}

/-- The members tell the report. -/
structure Told (ms : List (String × Json)) (r : ErrorReport) : Prop where
  floatFree : FloatFreeMembers ms
  nodup : (ms.map Prod.fst).Nodup
  kind : ("kind", Json.str r.kind.name) ∈ ms
  pass : ("pass", Json.int r.pass.toNat) ∈ ms
  constructKind : Part ms "construct_kind" (fun j s => j = .str s) r.constructKind
  constructId : Part ms "construct_id" (fun j s => j = .str s) r.constructId
  field : Part ms "field" (fun j s => j = .str s) r.field
  loc : Part ms "location" Location.Told r.loc
  message : ("message", Json.str r.message) ∈ ms

theorem Told.perm (hp : ms.Perm ms') (h : Told ms r) : Told ms' r where
  floatFree := floatFreeMembers_iff.2 fun m hm =>
    floatFreeMembers_iff.1 h.floatFree m (hp.mem_iff.2 hm)
  nodup := (hp.map Prod.fst).nodup_iff.1 h.nodup
  kind := hp.mem_iff.1 h.kind
  pass := hp.mem_iff.1 h.pass
  constructKind := h.constructKind.perm hp
  constructId := h.constructId.perm hp
  field := h.field.perm hp
  loc := h.loc.perm hp
  message := hp.mem_iff.1 h.message

/-- Whatever tells a report is read as that report. -/
theorem ofJsonText?_of_told {t : List Char} (h : Told ms r) (ht : (Json.obj ms).Spaced t) :
    ofJsonText? t = some r := by
  obtain ⟨ps, hps, htells⟩ := object?_spaced h.floatFree ht
  have hstring : ∀ (j : Json) (s : String) (t : List Char), j = .str s → j.Spaced t →
      isNull t = false ∧ string? t = some s := by
    rintro j s t rfl ht
    exact ⟨isNull_spaced (j := .str s) trivial (by simp [Json.kind]) ht, string?_spaced ht⟩
  have hkind : required? ps "kind" ErrorKind.ofJsonText? = some r.kind :=
    required?_of_mem htells h.nodup h.kind fun t ht => by
      rw [ErrorKind.ofJsonText?, string?_spaced ht]
      exact ErrorKind.ofName?_name r.kind
  have hpass : required? ps "pass" (natBelow? 256) = some r.pass.toNat :=
    required?_of_mem htells h.nodup h.pass fun t => natBelow?_spaced r.pass.toNat_lt
  have hmessage : required? ps "message" string? = some r.message :=
    required?_of_mem htells h.nodup h.message fun t => string?_spaced
  have hconstructKind := optional?_of_part htells h.nodup h.constructKind
    fun j s t _ => hstring j s t
  have hconstructId := optional?_of_part htells h.nodup h.constructId fun j s t _ => hstring j s t
  have hfield := optional?_of_part htells h.nodup h.field fun j s t _ => hstring j s t
  have hloc := optional?_of_part htells h.nodup h.loc fun j loc t _ =>
    Location.ofJsonText?_of_told
  simp only [ofJsonText?, array?_of_object ht, hps]
  simp [hkind, hpass, hmessage, hconstructKind, hconstructId, hfield, hloc]

/-! ## The written forms -/

/-- The form without the parts that a report lacks. -/
theorem exists_told_json (r : ErrorReport) : ∃ ms, r.json = .obj ms ∧ Told ms r := by
  refine ⟨_, rfl, ?_⟩
  constructor
  case floatFree =>
    refine floatFreeMembers_iff.2 fun m hm => ?_
    simp only [List.mem_append, List.mem_cons, List.not_mem_nil, or_false, mem_member?] at hm
    rcases hm with
      (((((rfl | rfl) | ⟨_, _, rfl⟩) | ⟨_, _, rfl⟩) | ⟨_, _, rfl⟩) | ⟨_, _, rfl⟩) | rfl
    all_goals simp [FloatFree, FloatFreeMembers, Location.json]
  case nodup =>
    have hkeys : (["kind", "pass"] ++ ["construct_kind"] ++ ["construct_id"] ++ ["field"] ++
        ["location"] ++ ["message"]).Nodup := by decide
    refine List.Sublist.nodup ?_ hkeys
    simp only [List.map_append]
    exact (((((List.Sublist.refl _).append keys_member?_sublist).append
      keys_member?_sublist).append keys_member?_sublist).append keys_member?_sublist).append
      (.refl _)
  case kind => simp
  case pass => simp
  case message => simp
  case constructKind =>
    refine part_of_member? .str (fun s hs => ?_) (fun hs => ?_) fun _ => rfl
    · simp [mem_member?, hs]
    · simp [mem_keys_member?, hs]
  case constructId =>
    refine part_of_member? .str (fun s hs => ?_) (fun hs => ?_) fun _ => rfl
    · simp [mem_member?, hs]
    · simp [mem_keys_member?, hs]
  case field =>
    refine part_of_member? .str (fun s hs => ?_) (fun hs => ?_) fun _ => rfl
    · simp [mem_member?, hs]
    · simp [mem_keys_member?, hs]
  case loc =>
    refine part_of_member? Location.json (fun s hs => ?_) (fun hs => ?_) Location.told_json
    · simp [mem_member?, hs]
    · simp [mem_keys_member?, hs]

/-- The form with every part. -/
theorem exists_told_fullJson (r : ErrorReport) : ∃ ms, r.fullJson = .obj ms ∧ Told ms r := by
  refine ⟨_, rfl, Told.perm (List.mergeSort_perm _ _).symm ?_⟩
  have hfree {α : Type} (toJson : α → Json) (part : Option α)
      (h : ∀ a, (toJson a).sorted.FloatFree) : (orNull toJson part).sorted.FloatFree := by
    cases part with
    | none => trivial
    | some a => exact h a
  constructor
  case floatFree =>
    refine ⟨hfree _ _ fun _ => trivial, hfree _ _ fun _ => trivial, hfree _ _ fun _ => trivial,
      trivial, hfree _ _ fun loc => ?_, trivial, trivial, trivial⟩
    obtain ⟨ms, hms, hfree, -⟩ := loc.told_sorted
    rw [hms]
    exact hfree
  case nodup => simp [sortedMembers]
  case kind => simp [sortedMembers, sorted]
  case pass => simp [sortedMembers, sorted]
  case message => simp [sortedMembers, sorted]
  case constructKind => exact part_of_orNull .str (by simp [sortedMembers]) fun _ => rfl
  case constructId => exact part_of_orNull .str (by simp [sortedMembers]) fun _ => rfl
  case field => exact part_of_orNull .str (by simp [sortedMembers]) fun _ => rfl
  case loc => exact part_of_orNull Location.json (by simp [sortedMembers]) Location.told_sorted

theorem ofJson?_of_told {t : List Char} (h : Told ms r) (ht : (Json.obj ms).Spaced t) :
    ofJson? (String.ofList t) = some r := by
  have hend : NoneNext NumberStyle.isPart [] := by simp [NoneNext]
  have hvalue := value?_spaced (j := .obj ms) h.floatFree blanks_nil ht hend
  rw [List.nil_append, List.append_nil] at hvalue
  have hwhole : whole? (String.ofList t) = some t := by
    rw [whole?, String.toList_ofList, hvalue]
    rfl
  rw [ofJson?, hwhole]
  exact ofJsonText?_of_told h ht

/-- A report is read back from each of its three written forms. -/
theorem ofJson?_written (r : ErrorReport) :
    ofJson? r.json.compact = some r ∧ ofJson? r.fullJson.compact = some r ∧
      ofJson? r.fullJson.pretty = some r := by
  obtain ⟨ms, hjson, hms⟩ := r.exists_told_json
  obtain ⟨fs, hfull, hfs⟩ := r.exists_told_fullJson
  rw [hjson, hfull]
  exact ⟨ofJson?_of_told hms (spaced_compactText _), ofJson?_of_told hfs (spaced_compactText _),
    ofJson?_of_told hfs (spaced_prettyText 0 _)⟩

/-- An empty part beside a missing one, a null byte, an escape that is spelled out, and a character
beyond 16 bits, at the last place there is. -/
theorem ofJson?_written_extremes :
    let r : ErrorReport := ⟨.io, 255, some "", none, some "\x00\\u0041\"",
      some ⟨4294967295, 4294967295⟩, "é😀\n"⟩
    ofJson? r.json.compact = some r ∧ ofJson? r.fullJson.compact = some r ∧
      ofJson? r.fullJson.pretty = some r :=
  ofJson?_written _

end ErrorReport
end WireSchema
