import WireSchema.Proofs.Spelling

/-! A text is its tokens with gaps around them, and every token knows its place. -/
namespace WireSchema
namespace Location

/-- The place behind some text: a line further for every line end, and a column further for every
character since the last one. -/
def behind (cs : List Char) : Location :=
  ⟨.ofNat (1 + cs.count '\n'), .ofNat (1 + (cs.rtakeWhile (· ≠ '\n')).length)⟩

/-- The place moves on with each character. -/
theorem behind_concat (cs : List Char) (c : Char) :
    behind (cs ++ [c]) = (behind cs).next c := by
  by_cases hc : c = '\n'
  · simp [behind, next, hc, List.rtakeWhile_concat_neg, UInt32.add_assoc]
  · simp [behind, next, hc, List.rtakeWhile_concat_pos, UInt32.add_assoc]

theorem after_behind (before cs : List Char) :
    (behind before).after cs = behind (before ++ cs) := by
  induction cs generalizing before with
  | nil => simp
  | cons c cs ih => rw [after_cons, ← behind_concat, ih, List.append_assoc, List.singleton_append]

/-- Up to the largest count of 32 bits the place is told exactly. -/
theorem toNat_behind {cs : List Char} (h : cs.length + 1 < 2 ^ 32) :
    (behind cs).line.toNat = 1 + cs.count '\n' ∧
      (behind cs).column.toNat = 1 + (cs.rtakeWhile (· ≠ '\n')).length := by
  have hline : cs.count '\n' ≤ cs.length := List.count_le_length
  have hcolumn : (cs.rtakeWhile (· ≠ '\n')).length ≤ cs.length :=
    (List.rtakeWhile_suffix _ cs).length_le
  simp only [behind, UInt32.toNat_ofNat']
  exact ⟨Nat.mod_eq_of_lt (by omega), Nat.mod_eq_of_lt (by omega)⟩

theorem line_behind_le (cs : List Char) : (behind cs).line.toNat ≤ 1 + cs.count '\n' := by
  rw [behind, UInt32.toNat_ofNat']
  exact Nat.mod_le _ _

end Location

open Location (behind)

/-- Blanks and comments before some text. A comment runs up to a line end or the end of the
text. -/
inductive Gap (rest : List Char) : List Char → Prop where
  | nil : Gap rest []
  | blank {c : Char} {g : List Char} : Text.isBlank c = true → Gap rest g → Gap rest (c :: g)
  | comment {body g : List Char} : '\n' ∉ body → (∀ c ∈ (g ++ rest).head?, c = '\n') →
      Gap rest g → Gap rest ('#' :: (body ++ g))

/-- A text behind `before`, up to `rest`, as tokens with a gap before each and one at the end. -/
inductive Layout (rest : List Char) : List Char → List Char → List Lexeme → Prop where
  | gap {before g : List Char} : Gap rest g → Layout rest before g []
  | token {before g w text : List Char} {t : Token} {ls : List Lexeme} :
      Gap (w ++ text ++ rest) g → w ≠ [] → Spells w t → Ends t (text ++ rest) →
      Layout rest (before ++ g ++ w) text ls →
      Layout rest before (g ++ w ++ text) (⟨t, behind (before ++ g)⟩ :: ls)

namespace Layout
variable {rest before text : List Char} {ls : List Lexeme} {c : Char}

/-- A blank more in front. -/
theorem blank (hc : Text.isBlank c = true) (h : Layout rest (before ++ [c]) text ls) :
    Layout rest before (c :: text) ls := by
  cases h with
  | gap hg => exact .gap (.blank hc hg)
  | @token _ g w text t ls hg hw hspells hends htext =>
    have hplace : before ++ [c] ++ g = before ++ c :: g := by simp
    rw [hplace] at htext ⊢
    exact .token (.blank hc hg) hw hspells hends htext

theorem comment {body : List Char} (hbody : '\n' ∉ body)
    (hnext : ∀ c ∈ (text ++ rest).head?, c = '\n')
    (h : Layout rest (before ++ '#' :: body) text ls) :
    Layout rest before ('#' :: (body ++ text)) ls := by
  cases h with
  | gap hg => exact .gap (.comment hbody hnext hg)
  | @token _ g w text t ls hg hw hspells hends htext =>
    have hplace : before ++ '#' :: body ++ g = before ++ '#' :: (body ++ g) := by simp
    have htext' : '#' :: (body ++ (g ++ w ++ text)) = '#' :: (body ++ g) ++ w ++ text := by simp
    rw [hplace] at htext ⊢
    rw [htext']
    refine .token (.comment hbody ?_ hg) hw hspells hends htext
    simpa [List.append_assoc] using hnext

/-- A token that no gap precedes. -/
theorem cons {w : List Char} {t : Token} (hspells : Spells w t) (hends : Ends t (text ++ rest))
    (h : Layout rest (before ++ w) text ls) :
    Layout rest before (w ++ text) (⟨t, behind before⟩ :: ls) := by
  have h' : Layout rest (before ++ [] ++ w) text ls := by simpa using h
  simpa using Layout.token .nil hspells.ne_nil hspells hends h'

/-- Each token stands behind a part of the text. -/
theorem exists_behind (h : Layout rest before text ls) :
    ∀ l ∈ ls, ∃ pre, pre <+: text ∧ l.loc = behind (before ++ pre) := by
  induction h with
  | gap => simp
  | @token before g w text t ls hg hw hspells hends htext ih =>
    refine List.forall_mem_cons.2 ⟨⟨g, ⟨w ++ text, by simp⟩, rfl⟩, fun l hl => ?_⟩
    obtain ⟨pre, ⟨post, rfl⟩, hloc⟩ := ih l hl
    exact ⟨g ++ w ++ pre, ⟨post, by simp⟩, by simpa using hloc⟩

end Layout

namespace Lexer
variable {loc : Location} {before text body r w : List Char} {c : Char} {t : Token}
  {ls : List Lexeme} {e : SyntaxError}

theorem isBlank_hash : Text.isBlank '#' = false := by decide +kernel

theorem takeWhile_comment (hbody : '\n' ∉ body) (hr : ∀ c ∈ r.head?, c = '\n') :
    (body ++ r).takeWhile (· ≠ '\n') = body := by
  refine takeWhile_span (fun c hc => ?_) (fun c hc => by simpa using hr c hc)
  rw [decide_eq_true_eq]
  rintro rfl
  exact hbody hc

theorem tokensFrom_comment (hbody : '\n' ∉ body) (hr : ∀ c ∈ r.head?, c = '\n') :
    tokensFrom loc ('#' :: (body ++ r)) = tokensFrom (loc.after ('#' :: body)) r := by
  rw [tokensFrom, if_pos rfl]
  simp only [takeWhile_comment hbody hr, List.drop_left]

theorem tokensFrom_blank {cs : List Char} (hc : Text.isBlank c = true) :
    tokensFrom loc (c :: cs) = tokensFrom (loc.next c) cs := by
  have hhash : c ≠ '#' := by
    rintro rfl
    simp [isBlank_hash] at hc
  rw [tokensFrom, if_neg hhash, if_pos hc]

/-- A token is at the place where its first character is. -/
theorem tokensFrom_token (hhash : c ≠ '#') (hblank : Text.isBlank c = false)
    (ht : token c (w ++ r) = .ok (t, w.length + 1)) :
    tokensFrom loc (c :: (w ++ r)) =
      (tokensFrom (loc.after (c :: w)) r).map (⟨t, loc⟩ :: ·) := by
  rw [tokensFrom, if_neg hhash, if_neg (by simp [hblank])]
  simp only [ht, Nat.add_sub_cancel, List.take_left, List.drop_left]
  cases tokensFrom (loc.after (c :: w)) r <;> rfl

theorem tokensFrom_fault {cs : List Char} {fault : SyntaxFault} (hhash : c ≠ '#')
    (hblank : Text.isBlank c = false) (ht : token c cs = .error fault) :
    tokensFrom loc (c :: cs) = .error ⟨loc, fault⟩ := by
  rw [tokensFrom, if_neg hhash, if_neg (by simp [hblank]), ht]

/-- Induction along a text as it is read: a comment, a blank or a token at a time, up to the end or
a character that starts no token. -/
theorem reading_induction {motive : List Char → Prop} (nil : motive [])
    (comment : ∀ body r, '\n' ∉ body → (∀ c ∈ r.head?, c = '\n') → motive r →
      motive ('#' :: (body ++ r)))
    (blank : ∀ c r, Text.isBlank c = true → motive r → motive (c :: r))
    (fault : ∀ c r fault, c ≠ '#' → Text.isBlank c = false → token c r = .error fault →
      motive (c :: r))
    (token : ∀ c w r t, c ≠ '#' → Text.isBlank c = false → Spells (c :: w) t → Ends t r →
      (∀ r', NextIn r' r → token c (w ++ r') = .ok (t, w.length + 1)) → motive r →
      motive (c :: (w ++ r))) (text : List Char) : motive text := by
  induction hn : text.length using Nat.strong_induction_on generalizing text with
  | _ n ih =>
    cases text with
    | nil => exact nil
    | cons c cs =>
      by_cases hhash : c = '#'
      · obtain ⟨body, r, rfl, hbody, hr⟩ := exists_span (· ≠ '\n') cs
        subst hhash
        refine comment body r (fun h => by simpa using hbody _ h)
          (fun d hd => by simpa using hr d hd) (ih _ ?_ r rfl)
        simp only [List.length_cons, List.length_append] at hn
        omega
      by_cases hblank : Text.isBlank c = true
      · exact blank c cs hblank (ih _ (by simp [← hn]) cs rfl)
      rw [Bool.not_eq_true] at hblank
      cases ht : Lexer.token c cs with
      | error f => exact fault c cs f hhash hblank ht
      | ok tn =>
        obtain ⟨t, n⟩ := tn
        obtain ⟨w, r, rfl, rfl, hspells, hends, hstable⟩ := token_eq_ok ht
        refine token c w r t hhash hblank hspells hends hstable (ih _ ?_ r rfl)
        simp only [List.length_cons, List.length_append] at hn
        omega

/-- What is read in the end is laid out in the text. -/
theorem tokensFrom_eq_ok (h : tokensFrom (behind before) text = .ok ls) :
    ∃ ls', ls = ls' ++ [⟨.eof, behind (before ++ text)⟩] ∧ Layout [] before text ls' := by
  induction text using reading_induction generalizing before ls with
  | nil =>
    rw [tokensFrom] at h
    cases h
    exact ⟨[], by simp, .gap .nil⟩
  | comment body r hbody hr ih =>
    rw [tokensFrom_comment hbody hr, Location.after_behind] at h
    obtain ⟨ls', rfl, hlayout⟩ := ih h
    exact ⟨ls', by simp, hlayout.comment hbody (by simpa using hr)⟩
  | blank c r hc ih =>
    rw [tokensFrom_blank hc, ← Location.behind_concat] at h
    obtain ⟨ls', rfl, hlayout⟩ := ih h
    exact ⟨ls', by simp, hlayout.blank hc⟩
  | fault c r fault hhash hblank ht =>
    rw [tokensFrom_fault hhash hblank ht] at h
    cases h
  | token c w r t hhash hblank hspells hends hstable ih =>
    rw [tokensFrom_token hhash hblank (hstable r (.refl r)), Location.after_behind] at h
    obtain ⟨ls, hls, rfl⟩ := map_eq_ok.1 h
    obtain ⟨ls', rfl, hlayout⟩ := ih hls
    exact ⟨⟨t, behind before⟩ :: ls', by simp, hlayout.cons hspells (by simpa using hends)⟩

theorem mem_head?_append {pre : List Char} (post : List Char) (h : c ∈ pre.head?) :
    c ∈ (pre ++ post).head? := by
  cases pre with
  | nil => simp at h
  | cons d pre => exact h

theorem nextIn_append (pre post : List Char) : NextIn pre (pre ++ post) :=
  fun _ h => .inr (mem_head?_append post h)

/-- Where reading fails, a token should start, and the text before it can be read alone. -/
theorem tokensFrom_eq_error (h : tokensFrom (behind before) text = .error e) :
    ∃ pre c post ls, text = pre ++ c :: post ∧ e.loc = behind (before ++ pre) ∧
      Layout (c :: post) before pre ls ∧ c ≠ '#' ∧ Text.isBlank c = false ∧
      token c post = .error e.fault ∧
      tokensFrom (behind before) pre = .ok (ls ++ [⟨.eof, behind (before ++ pre)⟩]) := by
  induction text using reading_induction generalizing before with
  | nil =>
    rw [tokensFrom] at h
    cases h
  | comment body r hbody hr ih =>
    rw [tokensFrom_comment hbody hr, Location.after_behind] at h
    obtain ⟨pre, c, post, ls, rfl, hloc, hlayout, hhash, hblank, ht, hpre⟩ := ih h
    have hpre_next : ∀ d ∈ pre.head?, d = '\n' := fun d hd => hr d (mem_head?_append _ hd)
    refine ⟨'#' :: (body ++ pre), c, post, ls, by simp, by simpa using hloc,
      hlayout.comment hbody hr, hhash, hblank, ht, ?_⟩
    rw [tokensFrom_comment hbody hpre_next, Location.after_behind, hpre]
    simp
  | blank d r hd ih =>
    rw [tokensFrom_blank hd, ← Location.behind_concat] at h
    obtain ⟨pre, c, post, ls, rfl, hloc, hlayout, hhash, hblank, ht, hpre⟩ := ih h
    refine ⟨d :: pre, c, post, ls, rfl, by simpa using hloc, hlayout.blank hd, hhash, hblank,
      ht, ?_⟩
    rw [tokensFrom_blank hd, ← Location.behind_concat, hpre]
    simp
  | fault c r fault hhash hblank ht =>
    rw [tokensFrom_fault hhash hblank ht] at h
    cases h
    exact ⟨[], c, r, [], rfl, by simp, .gap .nil, hhash, hblank, ht, by simp [tokensFrom]⟩
  | token d w r t hhash hblank hspells hends hstable ih =>
    rw [tokensFrom_token hhash hblank (hstable r (.refl r)), Location.after_behind] at h
    have hr : tokensFrom (behind (before ++ d :: w)) r = .error e := by
      cases hls : tokensFrom (behind (before ++ d :: w)) r <;> simp_all [Except.map]
    obtain ⟨pre, c, post, ls, rfl, hloc, hlayout, hhash', hblank', hc, hpre⟩ := ih hr
    refine ⟨d :: (w ++ pre), c, post, ⟨t, behind before⟩ :: ls, by simp, by simpa using hloc,
      hlayout.cons hspells hends, hhash', hblank', hc, ?_⟩
    rw [tokensFrom_token hhash hblank (hstable pre (nextIn_append _ _)), Location.after_behind,
      hpre]
    simp [Except.map]

end Lexer

theorem tokens_eq (text : String) :
    tokens text = Lexer.tokensFrom (behind []) text.toList := rfl

/-- A text that can be read splits into its tokens with gaps around them, each token at the place
its characters stand at, and the end of the text at its end. A text that cannot be read splits so
up to the first character of a token that cannot be read: that is the place of the complaint, and
what stands before it can be read alone. In a text of fewer than `2 ^ 32` characters the counts of
lines and columns never start again, but at the end of one line with `2 ^ 32 - 1` of them. -/
theorem tokens_layout (text : String) :
    (match tokens text with
    | .ok ls => ∃ ls', ls = ls' ++ [⟨.eof, behind text.toList⟩] ∧ Layout [] [] text.toList ls'
    | .error e => ∃ pre c post ls, text.toList = pre ++ c :: post ∧ e.loc = behind pre ∧
        Layout (c :: post) [] pre ls ∧ c ≠ '#' ∧ Text.isBlank c = false ∧
        Lexer.token c post = .error e.fault ∧
        tokens (String.ofList pre) = .ok (ls ++ [⟨.eof, behind pre⟩])) ∧
    (text.length < 2 ^ 32 → ∀ pre, pre <+: text.toList → pre.length ≠ 2 ^ 32 - 1 →
      (behind pre).line.toNat = 1 + pre.count '\n' ∧
        (behind pre).column.toNat = 1 + (pre.rtakeWhile (· ≠ '\n')).length) := by
  refine ⟨?_, fun hlength pre hpre hne => Location.toNat_behind ?_⟩
  swap
  · have hle := hpre.length_le
    rw [String.length_toList] at hle
    omega
  cases h : tokens text with
  | ok ls =>
    rw [tokens_eq] at h
    simpa using Lexer.tokensFrom_eq_ok h
  | error e =>
    rw [tokens_eq] at h
    obtain ⟨pre, c, post, ls, htext, hloc, hlayout, hhash, hblank, hc, hpre⟩ :=
      Lexer.tokensFrom_eq_error h
    refine ⟨pre, c, post, ls, htext, hloc, hlayout, hhash, hblank, hc, ?_⟩
    rw [tokens_eq, String.toList_ofList]
    exact hpre

/-- A line end inside a string counts, and so does every character of its escape. -/
example : tokens "\"a\\\nb\" c" =
    .ok [⟨.literal (.str "a\\\nb"), ⟨1, 1⟩⟩, ⟨.word "c", ⟨2, 4⟩⟩, ⟨.eof, ⟨2, 5⟩⟩] := by
  decide +kernel

end WireSchema
