import WireSchema.Compilation
import WireSchema.Proofs.Elaboration

/-! What becomes of an option that is set more than once: its first entry gives the place, its last
one the value, and each but the first a warning that quotes the entry just before it. -/
namespace WireSchema
namespace Schema

section LastValues
variable {entries : List (String × String)} {key value : String}

theorem lookup_reverse_concat (k : String) :
    (entries ++ [(key, value)]).reverse.lookup k =
      if k = key then some value else entries.reverse.lookup k := by
  rw [List.reverse_concat, List.lookup_cons]
  by_cases hk : k = key
  · simp [hk]
  · have hb : (k == key) = false := beq_eq_false_iff_ne.2 hk
    simp [hb, hk]

theorem lookup_reverse_isSome {k : String} (h : k ∈ entries.map Prod.fst) :
    ∃ v, entries.reverse.lookup k = some v := by
  rw [← Option.isSome_iff_exists, List.lookup_isSome_iff]
  obtain ⟨e, he, rfl⟩ := List.mem_map.1 h
  exact ⟨e, List.mem_reverse.2 he, beq_self_eq_true _⟩

theorem eraseDups_concat_known {ks : List String} (h : key ∈ ks) :
    (ks ++ [key]).eraseDups = ks.eraseDups := by
  simp [List.eraseDups_append, List.removeAll, h]

theorem eraseDups_concat_new {ks : List String} (h : key ∉ ks) :
    (ks ++ [key]).eraseDups = ks.eraseDups ++ [key] := by
  simp [List.eraseDups_append, List.removeAll, h, List.eraseDups_cons]

theorem eraseDups_nodup (ks : List String) : ks.eraseDups.Nodup := by
  induction ks using List.reverseRecOn with
  | nil => simp
  | append_singleton ks key ih =>
    by_cases h : key ∈ ks
    · rwa [eraseDups_concat_known h]
    · rw [eraseDups_concat_new h, ← List.concat_eq_append, List.nodup_concat]
      exact ⟨fun hm => h (List.mem_eraseDups.1 hm), ih⟩

theorem lastValues_keys : (lastValues entries).map Prod.fst = (entries.map Prod.fst).eraseDups := by
  rw [lastValues, List.map_filterMap]
  refine Eq.trans (List.filterMap_congr fun k hk => ?_) List.filterMap_some
  obtain ⟨v, hv⟩ := lookup_reverse_isSome (List.mem_eraseDups.1 hk)
  simp [hv]

/-- Exactly the keys that are set have a value at last. -/
theorem mem_lastValues_keys :
    key ∈ (lastValues entries).map Prod.fst ↔ key ∈ entries.map Prod.fst := by
  rw [lastValues_keys, List.mem_eraseDups]

theorem lastValues_nodup : ((lastValues entries).map Prod.fst).Nodup := by
  rw [lastValues_keys]
  exact eraseDups_nodup _

/-- A new key goes to the end. -/
theorem lastValues_concat_new (h : key ∉ entries.map Prod.fst) :
    lastValues (entries ++ [(key, value)]) = lastValues entries ++ [(key, value)] := by
  simp only [lastValues, List.map_append, List.map_singleton, eraseDups_concat_new h,
    List.filterMap_append, lookup_reverse_concat]
  congr 1
  · refine List.filterMap_congr fun k hk => ?_
    have hne : k ≠ key := fun he => h (he ▸ List.mem_eraseDups.1 hk)
    rw [if_neg hne]
  · simp

theorem lastValues_concat_known (h : key ∈ entries.map Prod.fst) :
    lastValues (entries ++ [(key, value)]) =
      (lastValues entries).map fun e => if e.1 = key then (key, value) else e := by
  simp only [lastValues, List.map_append, List.map_singleton, eraseDups_concat_known h,
    List.map_filterMap, lookup_reverse_concat]
  refine List.filterMap_congr fun k hk => ?_
  obtain ⟨v, hv⟩ := lookup_reverse_isSome (List.mem_eraseDups.1 hk)
  by_cases he : k = key
  · simp [← he, hv]
  · simp [he, hv]

/-- One more entry, written into the table of the entries before it. -/
theorem upsert_lastValues : ((Table.ofList (lastValues entries)).upsert key value).1 =
    .ofList (lastValues (entries ++ [(key, value)])) := by
  by_cases h : key ∈ entries.map Prod.fst
  · obtain ⟨⟨_, old⟩, he, rfl⟩ := List.mem_map.1 (mem_lastValues_keys.2 h)
    rw [Table.upsert_known lastValues_nodup he, lastValues_concat_known h]
  · rw [Table.upsert_new lastValues_nodup (mt mem_lastValues_keys.1 h), lastValues_concat_new h]

end LastValues

variable {entries : List OptionDef} {o : OptionDef} {key : String}

/-- The value that the entries give to a key at last. -/
def lastValue? (entries : List OptionDef) (key : String) : Option String :=
  (entries.reverse.find? fun o => o.key = key).map OptionDef.value

/-- The warnings about some entries: one for each whose key came before, with the value that the key
had then. -/
def replacements (entries : List OptionDef) : List Diagnostic :=
  entries.zipIdx.filterMap fun e => (lastValue? (entries.take e.2) e.1.key).map fun old =>
    ⟨.warning, some e.1.loc,
      s!"option {e.1.key} redefined, replacing \"{old}\" with \"{e.1.value}\""⟩

/-- To search backwards is to look up in the reversed list. -/
theorem lastValue?_eq_lookup (entries : List OptionDef) (key : String) :
    lastValue? entries key = (entries.map fun o => (o.key, o.value)).reverse.lookup key := by
  induction entries using List.reverseRecOn with
  | nil => rfl
  | append_singleton entries o ih =>
    rw [List.map_append, List.map_singleton, lookup_reverse_concat, ← ih]
    by_cases hkey : key = o.key
    · simp [lastValue?, hkey]
    · simp [lastValue?, hkey, Ne.symm hkey]

theorem lastValue?_isSome_iff :
    (lastValue? entries key).isSome = true ↔ key ∈ entries.map OptionDef.key := by
  simp [lastValue?, List.find?_isSome]

/-! One entry more: at most one warning more, and the key is new or known. -/

theorem replacements_concat (entries : List OptionDef) (o : OptionDef) :
    replacements (entries ++ [o]) =
      replacements entries ++ ((lastValue? entries o.key).map (optionReplaced o)).toList := by
  have hold : ∀ e ∈ entries.zipIdx, (entries ++ [o]).take e.2 = entries.take e.2 := by
    intro e he
    have hlt : e.2 < entries.length := by simpa using List.snd_lt_of_mem_zipIdx he
    exact List.take_append_of_le_length hlt.le
  unfold replacements
  rw [List.zipIdx_append, List.filterMap_append]
  congr 1
  · refine List.filterMap_congr ?_
    intro e he
    rw [hold e he]
  · simp only [List.zipIdx_singleton, Nat.zero_add, List.filterMap_cons, List.filterMap_nil,
      List.take_left]
    cases lastValue? entries o.key <;> rfl

/-- What a known key had before is what the entries gave it at last. -/
theorem upsert_snd_lastValues {entries : List (String × String)} {value : String} :
    ((Table.ofList (lastValues entries)).upsert key value).2 = entries.reverse.lookup key := by
  by_cases h : key ∈ entries.map Prod.fst
  · obtain ⟨⟨_, old⟩, he, rfl⟩ := List.mem_map.1 (mem_lastValues_keys.2 h)
    rw [Table.upsert_known lastValues_nodup he]
    obtain ⟨k, -, hk⟩ := List.mem_filterMap.1 he
    obtain ⟨v, hv, heq⟩ := Option.map_eq_some_iff.1 hk
    cases heq
    exact hv.symm
  · have hnone : entries.reverse.lookup key = none := by
      rw [List.lookup_eq_none_iff]
      intro e he
      have hne : key ≠ e.1 := by
        rintro rfl
        exact h (List.mem_map_of_mem (List.mem_reverse.1 he))
      simpa using hne
    rw [Table.upsert_new lastValues_nodup (mt mem_lastValues_keys.1 h), hnone]

/-- The table of the entries so far, as `collectOptions` leaves it. -/
def optionTable (entries : List OptionDef) : Table String :=
  .ofList (lastValues (entries.map fun o => (o.key, o.value)))

/-- One entry more: the table is that of one entry more, and the log has the remark on it. -/
theorem addOption_run (entries : List OptionDef) (o : OptionDef) (log : Log) :
    (addOption (optionTable entries) o).run log = (optionTable (entries ++ [o]),
      log.recordAll ((lastValue? entries o.key).map (optionReplaced o)).toList) := by
  have htable : ((optionTable entries).upsert o.key o.value).1 = optionTable (entries ++ [o]) := by
    rw [optionTable, upsert_lastValues, optionTable, List.map_append]
    rfl
  have hold : ((optionTable entries).upsert o.key o.value).2 = lastValue? entries o.key := by
    rw [optionTable, upsert_snd_lastValues, lastValue?_eq_lookup]
  rw [addOption, ← htable, ← hold]
  rcases (optionTable entries).upsert o.key o.value with ⟨options, _ | old⟩ <;> rfl

/-- The run over some entries: their table, and a warning for each replacement among them. -/
theorem foldlM_addOption (entries : List OptionDef) (log : Log) :
    (entries.foldlM addOption ∅).run log =
      (optionTable entries, log.recordAll (replacements entries)) := by
  induction entries using List.reverseRecOn with
  | nil => rfl
  | append_singleton entries o ih =>
    rw [List.foldlM_append, StateT.run_bind, ih, replacements_concat, Log.recordAll_append,
      ← addOption_run]
    simp only [List.foldlM_cons, List.foldlM_nil, bind_pure]
    rfl

/-- What the pass over the options gives does not depend on the log, and what it adds to the log
neither. -/
theorem collectOptions_run (doc : Document) (log : Log) :
    (collectOptions doc).run log =
      (doc.elaborate.options, log.recordAll (replacements doc.options)) :=
  foldlM_addOption doc.options log

/-- Each entry either sets a new key or gives a warning. -/
theorem length_replacements (entries : List OptionDef) :
    (replacements entries).length + (entries.map OptionDef.key).eraseDups.length =
      entries.length := by
  induction entries using List.reverseRecOn with
  | nil => rfl
  | append_singleton entries o ih =>
    rw [replacements_concat, List.map_append, List.map_singleton]
    by_cases hkey : o.key ∈ entries.map OptionDef.key
    · obtain ⟨old, hold⟩ := Option.isSome_iff_exists.1 (lastValue?_isSome_iff.2 hkey)
      rw [eraseDups_concat_known hkey, hold]
      simp
      omega
    · have hnone : lastValue? entries o.key = none := by
        rw [← Option.not_isSome_iff_eq_none, lastValue?_isSome_iff]
        exact hkey
      rw [eraseDups_concat_new hkey, hnone]
      simp
      omega

/-- The table of the options lists what the entries gave each key at last. -/
theorem mem_options_iff {doc : Document} {key value : String} :
    (key, value) ∈ doc.elaborate.options.toList ↔ lastValue? doc.options key = some value := by
  rw [Document.elaborate, Table.toList_ofList, lastValues, List.mem_filterMap,
    lastValue?_eq_lookup]
  constructor
  · rintro ⟨k, -, hk⟩
    obtain ⟨v, hv, heq⟩ := Option.map_eq_some_iff.1 hk
    cases heq
    exact hv
  · intro hv
    refine ⟨key, ?_, by simp [hv]⟩
    obtain ⟨o, ho, rfl⟩ := List.mem_map.1 (lastValue?_isSome_iff.1
      (by rw [lastValue?_eq_lookup, hv]; rfl))
    simpa using ⟨o, ho, rfl⟩

/-- The options of a document: the keys in the order of their first entries, with the values of
their last ones, and in a log that keeps warnings one for each entry that replaces another, behind
all that was there before. -/
theorem collectOptions_recorded (doc : Document) (log : Log) (hlog : log.level ≤ .warning) :
    ((collectOptions doc).run log).1.names = (doc.options.map OptionDef.key).eraseDups ∧
      (∀ key value, (key, value) ∈ ((collectOptions doc).run log).1.toList ↔
        lastValue? doc.options key = some value) ∧
      (∀ key, ((collectOptions doc).run log).1.get? key = lastValue? doc.options key) ∧
      ((collectOptions doc).run log).2.entries.toList =
        log.entries.toList ++ replacements doc.options ∧
      (replacements doc.options).length =
        doc.options.length - ((collectOptions doc).run log).1.size := by
  have hnames : doc.elaborate.options.names = (doc.options.map OptionDef.key).eraseDups := by
    rw [Document.elaborate, Table.names_ofList, lastValues_keys, List.map_map]
    rfl
  have hsound : doc.elaborate.options.Sound := Table.sound_ofList lastValues_nodup
  rw [collectOptions_run]
  refine ⟨hnames, fun _ _ => mem_options_iff, ?_, ?_, ?_⟩
  · intro key
    apply Option.ext
    intro value
    rw [Table.get?_eq_some_iff hsound, mem_options_iff]
  · have hkept : ∀ d ∈ replacements doc.options, log.level ≤ d.level := by
      intro d hd
      obtain ⟨e, -, he⟩ := List.mem_filterMap.1 hd
      obtain ⟨old, -, rfl⟩ := Option.map_eq_some_iff.1 he
      exact hlog
    rw [Log.entries_recordAll, List.filter_eq_self.2 (by simpa using hkept)]
  · have hcount := length_replacements doc.options
    rw [← Table.length_names, hnames]
    omega

/-- A key is set in two blocks, with another one in between, and the log is not empty. -/
theorem collectOptions_recorded_interleaved :
    let doc : Document :=
      [.options [⟨"a", "1", ⟨1, 11⟩⟩, ⟨"b", "2", ⟨1, 17⟩⟩, ⟨"a", "3", ⟨1, 23⟩⟩] ⟨1, 1⟩,
        .constant ⟨"N", .scalar (.int 1) ⟨2, 11⟩, ⟨2, 1⟩⟩,
        .options [⟨"a", "4", ⟨3, 11⟩⟩] ⟨3, 1⟩]
    let log : Log := ⟨.warning, #[⟨.error, none, "io"⟩]⟩
    log.level ≤ .warning ∧ ((collectOptions doc).run log).1.names = ["a", "b"] ∧
      ((collectOptions doc).run log).1.get? "a" = some "4" ∧
      ((collectOptions doc).run log).2.entries.toList =
        [⟨.error, none, "io"⟩,
          ⟨.warning, some ⟨1, 23⟩, "option a redefined, replacing \"1\" with \"3\""⟩,
          ⟨.warning, some ⟨3, 11⟩, "option a redefined, replacing \"3\" with \"4\""⟩] := by
  intro doc log
  obtain ⟨hnames, -, hget, hlog, -⟩ := collectOptions_recorded doc log (by decide)
  exact ⟨by decide, by rw [hnames]; decide, by rw [hget]; decide, by rw [hlog]; decide⟩

end Schema
end WireSchema
