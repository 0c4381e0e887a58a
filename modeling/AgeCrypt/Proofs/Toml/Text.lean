import AgeCrypt.Proofs.Toml.Scan
import AgeCrypt.Toml.Text

/-!
# TOML strings are read back

A text is read back from the way it is written (`scanText_writeText`), whatever characters are in
it.  Both steps of reading are followed:

* what stands between the quotes never closes the string (`Inside`), so the quotes that end it are
  found (`Quoting.split_of_inside`);
* it says the text (`Quoting.decode_encode`, `Quoting.decode_of_plain`).

A way with escapes admits every text; one without admits a text whose characters stand for
themselves and which has few enough single quotes in a row (`Quoting.Admits`).  The way that is
chosen admits the text (`Quoting.admits_choose`).
-/

namespace AgeCrypt
namespace Toml
namespace Quoting

variable {q : Quoting} {t : List Char} {rest : List Char}

/-! ## Finding the end -/

/-- Characters that do not close a string in which `run` quotes stand before them in a row. -/
inductive Inside (q : Quoting) : (run : Nat) → List Char → Prop where
  | nil {run : Nat} : Inside q run []
  -- A quote, of which few enough stand in a row.
  | quote {run : Nat} {cs : List Char} (hrun : run < q.maxQuotes) (h : Inside q (run + 1) cs) :
      Inside q run (q.mark :: cs)
  | escaped {run : Nat} {c : Char} {cs : List Char} (hq : q.escapes = true) (h : Inside q 0 cs) :
      Inside q run ('\\' :: c :: cs)
  | other {run : Nat} {c : Char} {cs : List Char} (hmark : c ≠ q.mark)
      (hescape : ¬ (c = '\\' ∧ q.escapes = true)) (h : Inside q 0 cs) : Inside q run (c :: cs)

theorem lt_of_lt_maxQuotes {run : Nat} (h : run < q.maxQuotes) : q.lines = true ∧ run < 2 := by
  unfold maxQuotes at h
  split at h
  · rename_i hlines
    exact ⟨hlines, h⟩
  · cases h

theorem backslash_ne_mark (h : q.escapes = true) : '\\' ≠ q.mark := by
  rw [mark, if_pos h]
  decide

/-- They begin with few quotes. -/
theorem Inside.leading {run : Nat} {cs : List Char} (h : Inside q run cs)
    (hrun : run ≤ q.maxQuotes) :
    ∃ k, run + k ≤ q.maxQuotes ∧ (cs = List.replicate k q.mark ∨
      ∃ c more, c ≠ q.mark ∧ cs = List.replicate k q.mark ++ c :: more) := by
  induction h with
  | nil => exact ⟨0, hrun, .inl rfl⟩
  | quote hless _ ih =>
      rcases ih hless with ⟨k, hk, hcs⟩
      refine ⟨k + 1, by omega, hcs.imp (fun hall => ?_) ?_⟩
      · rw [hall, List.replicate_succ]
      · rintro ⟨c, more, hc, hsome⟩
        exact ⟨c, more, hc, by rw [hsome, List.replicate_succ, List.cons_append]⟩
  | escaped hq _ _ => exact ⟨0, hrun, .inr ⟨_, _, backslash_ne_mark hq, rfl⟩⟩
  | other hmark _ _ _ => exact ⟨0, hrun, .inr ⟨_, _, hmark, rfl⟩⟩

/-- A quote with something else behind it does not close the string. -/
theorem split_quote {cs : List Char} (hlines : q.lines = true) (hlong : 2 ≤ cs.length)
    (hopen : ¬ [q.mark, q.mark] <+: cs) :
    split q (q.mark :: cs) = (split q cs).map fun r => (q.mark :: r.1, r.2) := by
  rcases cs with _ | ⟨d, _ | ⟨e, cs⟩⟩
  · cases hlong
  · cases Nat.le_of_succ_le_succ hlong
  · have hde : ¬ (d = q.mark ∧ e = q.mark) := by
      rintro ⟨rfl, rfl⟩
      exact hopen ⟨cs, rfl⟩
    rw [split, if_pos rfl, if_pos hlines]
    simp only [if_neg hde]

theorem delimiter_ne_nil (q : Quoting) : q.delimiter ≠ [] := by
  unfold delimiter
  split <;> exact List.cons_ne_nil _ _

section

variable (hrest : rest.head? ≠ some q.mark)
include hrest

/-- The last three of up to five quotes in a row close the string. -/
theorem split_quotes (hlines : q.lines = true) {k : Nat} (hk : k ≤ 2) :
    split q (List.replicate k q.mark ++ (q.delimiter ++ rest)) =
      some (List.replicate k q.mark, rest) := by
  have hcases : k = 0 ∨ k = 1 ∨ k = 2 := by omega
  have hmore : ((List.replicate k q.mark ++ rest).take 2).takeWhile (· = q.mark) =
      List.replicate k q.mark := by
    rcases rest with _ | ⟨c, rest⟩
    · rcases hcases with rfl | rfl | rfl <;> simp [List.replicate]
    · have hc : c ≠ q.mark := fun h => hrest (congrArg some h)
      rcases hcases with rfl | rfl | rfl <;> simp [List.replicate, hc]
  have hall : List.replicate k q.mark ++ (q.delimiter ++ rest) =
      q.mark :: q.mark :: q.mark :: (List.replicate k q.mark ++ rest) := by
    rw [delimiter, if_pos hlines]
    rcases hcases with rfl | rfl | rfl <;> rfl
  rw [hall, split, if_pos rfl, if_pos hlines]
  simp only [and_self, if_true, hmore]
  rw [List.drop_left]

/-- The end of a string is found where the quotes are that close it. -/
theorem split_of_inside {run : Nat} (h : Inside q run t) :
    split q (t ++ (q.delimiter ++ rest)) = some (t, rest) := by
  induction h with
  | nil =>
      cases hlines : q.lines with
      | true => exact split_quotes hrest hlines (Nat.zero_le 2)
      | false => simp [delimiter, hlines, split.eq_def q (q.mark :: rest)]
  | @quote run cs hrun h ih =>
      rcases lt_of_lt_maxQuotes hrun with ⟨hlines, -⟩
      have htwo : q.maxQuotes = 2 := by
        rw [maxQuotes, if_pos hlines]
      rcases h.leading hrun with ⟨k, hk, rfl | ⟨c, more, hc, rfl⟩⟩
      · exact split_quotes (k := k + 1) hrest hlines (by omega)
      · have hpos := List.length_pos_iff.2 (delimiter_ne_nil q)
        rw [List.cons_append, split_quote hlines, ih]
        · rfl
        · simp only [List.length_append, List.length_cons]
          omega
        · -- one of the two characters behind the quote is `c`
          have hcases : k = 0 ∨ k = 1 := by omega
          rcases hcases with rfl | rfl <;> simp [Ne.symm hc, List.replicate]
  | escaped hq h ih =>
      rw [List.cons_append, List.cons_append, split.eq_def]
      simp only [if_neg (backslash_ne_mark hq), hq, and_self, if_true, ih, Option.map_some]
  | other hmark hescape h ih =>
      rw [List.cons_append, split.eq_def]
      simp only [if_neg hmark, if_neg hescape, ih, Option.map_some]

end

/-! ## Escapes -/

/-- The letters behind a backslash that stand for a single character, and that character. -/
def letters : List (Char × Char) :=
  [('b', '\x08'), ('t', '\t'), ('n', '\n'), ('f', '\x0c'), ('r', '\r'), ('"', '"'), ('\\', '\\')]

theorem not_isPlain_lt {c : Char} (h : isPlain c = false) : c.toNat < 128 := by
  simp only [isPlain, Bool.or_eq_false_iff, Bool.and_eq_false_iff, decide_eq_false_iff_not,
    bne_eq_false_iff_eq] at h
  omega

/-- A character is escaped by a letter, or by its code point, which is small. -/
theorem escape?_eq_some {c : Char} {piece : List Char} (h : q.escape? c = some piece) :
    (∃ d, (d, c) ∈ letters ∧ piece = ['\\', d]) ∨
      c.toNat < 128 ∧ piece = '\\' :: 'u' :: hexDigits c.toNat := by
  have hletter : ∀ {d : Char}, (d, c) ∈ letters → some ['\\', d] = some piece →
      ∃ d, (d, c) ∈ letters ∧ piece = ['\\', d] :=
    fun hd heq => ⟨_, hd, (Option.some.inj heq).symm⟩
  unfold escape? at h
  split at h
  · exact .inl (hletter (by decide) h)
  · exact .inl (hletter (by decide) h)
  · split at h
    · cases h
    · exact .inl (hletter (by decide) h)
  · exact .inl (hletter (by decide) h)
  · exact .inl (hletter (by decide) h)
  · exact .inl (hletter (by decide) h)
  · split at h
    · cases h
    · rename_i hplain
      cases h
      exact .inr ⟨not_isPlain_lt (Bool.eq_false_iff.2 hplain), rfl⟩

/-- A character that is not escaped stands for itself, or is the end of a line between lines. -/
theorem escape?_eq_none {c : Char} (h : q.escape? c = none) :
    c ≠ '\\' ∧ (isPlain c = true ∨ c = '\n' ∧ q.lines = true) := by
  unfold escape? at h
  split at h
  case h_3 =>
    split at h
    · rename_i hlines
      exact ⟨by decide, .inr ⟨rfl, hlines⟩⟩
    · cases h
  case h_7 hbackslash =>
    split at h
    · rename_i hplain
      exact ⟨hbackslash, .inl hplain⟩
    · cases h
  all_goals cases h

theorem hexChar?_hexDigits {n : Nat} (h : n < 128) :
    hexChar? (hexDigits n) = some (Char.ofNat n) := by
  have hall : ∀ n < 128, hexChar? (hexDigits n) = some (Char.ofNat n) := by
    decide +kernel
  exact hall n h

/-! ## What a string says -/

theorem decode_nil (q : Quoting) (skipping : Bool) : decode q skipping [] = some [] :=
  rfl

def decodeEscape (q : Quoting) : List Char → Option (List Char)
  | 'u' :: h1 :: h2 :: h3 :: h4 :: cs => do
      let x ← hexChar? [h1, h2, h3, h4]
      (decode q false cs).map (x :: ·)
  | 'U' :: h1 :: h2 :: h3 :: h4 :: h5 :: h6 :: h7 :: h8 :: cs => do
      let x ← hexChar? [h1, h2, h3, h4, h5, h6, h7, h8]
      (decode q false cs).map (x :: ·)
  | d :: cs => do
      let x ← letter? d
      (decode q false cs).map (x :: ·)
  | [] => none

/-- A character in the middle of a line. -/
theorem decode_cons {c : Char} (hfeed : c ≠ '\n') (hreturn : c ≠ '\r') (cs : List Char) :
    decode q false (c :: cs) =
      if q.escapes ∧ c = '\\' then
        if q.lines ∧ endsLine cs then decode q true cs else decodeEscape q cs
      else if isPlain c then (decode q false cs).map (c :: ·)
      else none := by
  rw [decode.eq_def]
  simp only [hreturn, hfeed, false_and, and_false, if_false, Bool.false_eq_true]
  rfl

/-- A character that stands for itself. -/
theorem decode_plain {c : Char} (hplain : isPlain c = true) (hescape : q.escapes = true → c ≠ '\\')
    (cs : List Char) : decode q false (c :: cs) = (decode q false cs).map (c :: ·) := by
  have hreturn : c ≠ '\r' := by
    rintro rfl
    exact absurd hplain (by decide)
  have hfeed : c ≠ '\n' := by
    rintro rfl
    exact absurd hplain (by decide)
  have hbackslash : ¬ (q.escapes = true ∧ c = '\\') := fun h => hescape h.1 h.2
  rw [decode_cons hfeed hreturn, if_neg hbackslash, if_pos hplain]

theorem decode_newline (hlines : q.lines = true) (cs : List Char) :
    decode q false ('\n' :: cs) = (decode q false cs).map ('\n' :: ·) := by
  have hreturn : '\n' ≠ '\r' := by decide
  rw [decode.eq_def]
  simp only [hreturn, hlines, false_and, and_false, and_self, if_false, if_true, Bool.false_eq_true]

/-- A line does not end where something else follows. -/
theorem endsLine_eq_false {c : Char} (hblank : isBlank c = false) (hfeed : c ≠ '\n')
    (hreturn : c ≠ '\r') (cs : List Char) : endsLine (c :: cs) = false := by
  rw [endsLine, List.dropWhile_cons, hblank, if_neg Bool.false_ne_true,
    Scan.lineBreak?_eq_none hfeed hreturn, Option.isSome_none]

section

variable (hq : q.escapes = true)
include hq

theorem decode_backslash {cs : List Char} (hends : endsLine cs = false) :
    decode q false ('\\' :: cs) = decodeEscape q cs := by
  rw [decode_cons (by decide) (by decide), if_pos ⟨hq, rfl⟩, hends,
    if_neg fun h => Bool.false_ne_true h.2]

/-- An escape with a letter is read as the character that the letter stands for. -/
theorem decode_letter {c d : Char} (h : (d, c) ∈ letters) (cs : List Char) :
    decode q false ('\\' :: d :: cs) = (decode q false cs).map (c :: ·) := by
  have hletters : ∀ p ∈ letters, isBlank p.1 = false ∧ p.1 ≠ '\n' ∧ p.1 ≠ '\r' := by
    decide
  rcases hletters _ h with ⟨hblank, hfeed, hreturn⟩
  rw [decode_backslash hq (endsLine_eq_false hblank hfeed hreturn cs)]
  simp only [letters, List.mem_cons, Prod.mk.injEq, List.not_mem_nil, or_false] at h
  rcases h with ⟨rfl, rfl⟩ | ⟨rfl, rfl⟩ | ⟨rfl, rfl⟩ | ⟨rfl, rfl⟩ | ⟨rfl, rfl⟩ | ⟨rfl, rfl⟩ |
    ⟨rfl, rfl⟩ <;> rfl

/-- An escape with digits is read as the character with that code point. -/
theorem decode_code {n : Nat} (h : n < 128) (cs : List Char) :
    decode q false ('\\' :: 'u' :: (hexDigits n ++ cs)) =
      (decode q false cs).map (Char.ofNat n :: ·) := by
  have hends := endsLine_eq_false (c := 'u') (by decide) (by decide) (by decide)
    (hexDigits n ++ cs)
  have hcode := hexChar?_hexDigits h
  rw [decode_backslash hq hends]
  simp only [hexDigits, List.map_cons, List.map_nil, List.cons_append, List.nil_append] at hcode ⊢
  rw [decodeEscape, hcode]
  rfl

/-! ## Texts with escapes -/

/-- Hexadecimal digits do not close a string. -/
theorem inside_hexDigits (n : Nat) {cs : List Char} (h : Inside q 0 cs) :
    Inside q 0 (hexDigits n ++ cs) := by
  have hdigit : ∀ d < 16, d.digitChar.toUpper ≠ '"' ∧ d.digitChar.toUpper ≠ '\\' := by
    decide
  have hinside : ∀ (m : Nat) {cs : List Char}, Inside q 0 cs →
      Inside q 0 ((m % 16).digitChar.toUpper :: cs) := by
    intro m cs hcs
    rcases hdigit (m % 16) (Nat.mod_lt _ (by decide)) with ⟨hquote, hbackslash⟩
    refine .other ?_ (fun hescape => hbackslash hescape.1) hcs
    rwa [mark, if_pos hq]
  exact hinside _ (hinside _ (hinside _ (hinside _ h)))

/-- What is written between the quotes does not close them. -/
theorem inside_encode (t : List Char) (run : Nat) : Inside q run (q.encode run t) := by
  induction t generalizing run with
  | nil => exact .nil
  | cons c t ih =>
      have hmark : q.mark = '"' := by
        rw [mark, if_pos hq]
      rw [encode, if_neg (not_not_intro hq)]
      split
      · rename_i hc
        subst hc
        split
        · rename_i hrun
          exact hmark ▸ .quote hrun (ih _)
        · exact .escaped hq (ih 0)
      · rename_i hc
        split
        · rename_i piece hpiece
          rcases escape?_eq_some hpiece with ⟨d, -, rfl⟩ | ⟨-, rfl⟩
          · exact .escaped hq (ih 0)
          · exact .escaped hq (inside_hexDigits hq _ (ih 0))
        · rename_i hnone
          refine .other (hmark ▸ hc) ?_ (ih 0)
          exact fun hescape => (escape?_eq_none hnone).1 hescape.1

/-- What a text is written as says the text. -/
theorem decode_encode (t : List Char) (run : Nat) :
    decode q false (q.encode run t) = some t := by
  induction t generalizing run with
  | nil => rw [encode, decode_nil]
  | cons c t ih =>
      rw [encode, if_neg (not_not_intro hq)]
      split
      · rename_i hc
        subst hc
        split
        · rw [decode_plain (by decide) (fun _ => by decide), ih, Option.map_some]
        · have hquote : ('"', '"') ∈ letters := by decide
          rw [decode_letter hq hquote, ih, Option.map_some]
      · split
        · rename_i piece hpiece
          rcases escape?_eq_some hpiece with ⟨d, hd, rfl⟩ | ⟨hsmall, rfl⟩
          · rw [List.cons_append, List.cons_append, List.nil_append, decode_letter hq hd, ih,
              Option.map_some]
          · rw [List.cons_append, List.cons_append, decode_code hq hsmall, ih, Option.map_some,
              Char.ofNat_toNat]
        · rename_i hnone
          rcases escape?_eq_none hnone with ⟨hbackslash, hplain | ⟨rfl, hlines⟩⟩
          · rw [decode_plain hplain (fun _ => hbackslash), ih, Option.map_some]
          · rw [decode_newline hlines, ih, Option.map_some]

end

/-! ## Texts without escapes -/

theorem le_longestRun (c : Char) (t : List Char) (before : Nat) :
    before ≤ longestRun c before t := by
  induction t generalizing before with
  | nil => exact Nat.le_refl _
  | cons x t ih =>
      rw [longestRun]
      split
      · exact Nat.le_of_succ_le (ih _)
      · exact Nat.le_max_left _ _

/-- Whether a text can be written in this way: with escapes always; without them if its characters
stand for themselves and few enough quotes stand in a row. -/
def Admits (q : Quoting) (t : List Char) : Prop :=
  q.escapes = false →
    (∀ c ∈ t, isPlain c = true ∨ c = '\n' ∧ q.lines = true) ∧ longestRun q.mark 0 t ≤ q.maxQuotes

theorem encode_of_literal (hq : q.escapes = false) (t : List Char) (run : Nat) :
    q.encode run t = t := by
  induction t generalizing run with
  | nil => rw [encode]
  | cons c t ih => rw [encode, hq, if_pos Bool.false_ne_true, ih]

/-- Without escapes the quotes are not closed if there are few enough of their kind in a row. -/
theorem inside_of_longestRun (hq : q.escapes = false) {run : Nat}
    (h : longestRun q.mark run t ≤ q.maxQuotes) : Inside q run t := by
  induction t generalizing run with
  | nil => exact .nil
  | cons c t ih =>
      rw [longestRun] at h
      split at h
      · rename_i hc
        subst hc
        exact .quote (Nat.le_trans (le_longestRun _ t _) h) (ih h)
      · rename_i hc
        refine .other hc (fun hescape => ?_) (ih (Nat.le_trans (Nat.le_max_right _ _) h))
        exact Bool.false_ne_true (hq.symm.trans hescape.2)

/-- Without escapes characters stand for themselves. -/
theorem decode_of_plain (hq : q.escapes = false)
    (h : ∀ c ∈ t, isPlain c = true ∨ c = '\n' ∧ q.lines = true) : decode q false t = some t := by
  induction t with
  | nil => exact decode_nil q false
  | cons c t ih =>
      have hrest := ih fun d hd => h d (List.mem_cons_of_mem _ hd)
      rcases h c (List.mem_cons_self ..) with hplain | ⟨rfl, hlines⟩
      · have hescape : q.escapes = true → c ≠ '\\' :=
          fun hescape => absurd (hq.symm.trans hescape) Bool.false_ne_true
        rw [decode_plain hplain hescape, hrest, Option.map_some]
      · rw [decode_newline hlines, hrest, Option.map_some]

/-! ## Strings -/

/-- The line end that a text of several lines begins with when it is written. -/
def lead (q : Quoting) (t : List Char) : List Char :=
  if q.lines ∧ t.elem '\n' then ['\n'] else []

namespace Admits

variable (h : q.Admits t)
include h

theorem inside : Inside q 0 (q.encode 0 t) := by
  cases hq : q.escapes with
  | true => exact inside_encode hq t 0
  | false =>
      rw [encode_of_literal hq]
      exact inside_of_longestRun hq (h hq).2

theorem decode_eq : decode q false (q.encode 0 t) = some t := by
  cases hq : q.escapes with
  | true => exact decode_encode hq t 0
  | false =>
      rw [encode_of_literal hq]
      exact decode_of_plain hq (h hq).1

/-- A text of one line does not begin with a line end when it is written. -/
theorem head_encode (hfeed : '\n' ∉ t) {c : Char} {cs : List Char} (hc : q.encode 0 t = c :: cs) :
    c ≠ '\n' ∧ c ≠ '\r' := by
  have hplain : ∀ d : Char, isPlain d = true → d ≠ '\n' ∧ d ≠ '\r' := by
    rintro d hd
    refine ⟨?_, ?_⟩ <;>
    · rintro rfl
      exact absurd hd (by decide)
  cases t with
  | nil =>
      rw [encode] at hc
      cases hc
  | cons d t =>
      have hd : d ≠ '\n' := fun hd => hfeed (hd ▸ List.mem_cons_self ..)
      cases hq : q.escapes with
      | false =>
          rw [encode_of_literal hq] at hc
          rw [← (List.cons.inj hc).1]
          have hself := (h hq).1 d (List.mem_cons_self ..)
          exact hplain d (hself.resolve_right fun hline => hd hline.1)
      | true =>
          rw [encode, if_neg (not_not_intro hq)] at hc
          split at hc
          · rename_i hquote
            subst hquote
            split at hc <;>
            · cases hc
              exact ⟨by decide, by decide⟩
          · split at hc
            · rename_i piece hpiece
              rcases escape?_eq_some hpiece with ⟨e, -, rfl⟩ | ⟨-, rfl⟩ <;>
              · cases hc
                exact ⟨by decide, by decide⟩
            · rename_i hnone
              rw [← (List.cons.inj hc).1]
              exact hplain d ((escape?_eq_none hnone).2.resolve_right fun hline => hd hline.1)

/-- The line end that a string of several lines begins with is no part of the text. -/
theorem skip_lead (rest : List Char) :
    (if q.lines then Scan.skipLineBreak (lead q t ++ (q.encode 0 t ++ (q.delimiter ++ rest)))
      else lead q t ++ (q.encode 0 t ++ (q.delimiter ++ rest))) =
        q.encode 0 t ++ (q.delimiter ++ rest) := by
  by_cases hlines : q.lines = true
  · rw [if_pos hlines]
    by_cases hfeed : '\n' ∈ t
    · have hlead : lead q t = ['\n'] := if_pos ⟨hlines, List.elem_iff.2 hfeed⟩
      rw [hlead]
      rfl
    · have hlead : lead q t = [] := if_neg fun hboth => hfeed (List.elem_iff.1 hboth.2)
      rw [hlead, List.nil_append]
      cases hencoded : q.encode 0 t with
      | nil =>
          rw [List.nil_append, delimiter, if_pos hlines]
          have hmark : q.mark ≠ '\n' ∧ q.mark ≠ '\r' := by
            unfold mark
            split <;> decide
          exact congrArg (Option.getD · _) (Scan.lineBreak?_eq_none hmark.1 hmark.2 _)
      | cons c cs =>
          have hc := h.head_encode hfeed hencoded
          exact congrArg (Option.getD · _) (Scan.lineBreak?_eq_none hc.1 hc.2 _)
  · have hlead : lead q t = [] := if_neg fun hboth => hlines hboth.1
    rw [if_neg hlines, hlead, List.nil_append]

/-- What is written is read back, if no quote follows. -/
theorem scan_write (hrest : rest.head? ≠ some q.mark) :
    q.scan (q.write t ++ rest) = some (String.ofList t, rest) := by
  have hwrite : q.write t ++ rest =
      q.delimiter ++ (lead q t ++ (q.encode 0 t ++ (q.delimiter ++ rest))) := by
    simp only [write, lead, List.append_assoc]
  have hword := Scan.word_eq q.delimiter (lead q t ++ (q.encode 0 t ++ (q.delimiter ++ rest)))
  have hsplit := split_of_inside hrest h.inside
  rw [hwrite, scan, Scan.bind_eq hword, Scan.bind_eq rfl, h.skip_lead,
    Scan.bind_eq (Scan.lift_eq hsplit _)]
  exact (Scan.bind_eq (Scan.lift_eq h.decode_eq _) _).trans rfl

end Admits

/-! ## The way that is chosen -/

/-- The way that is chosen can always be written. -/
theorem admits_choose (t : List Char) : (choose t).Admits t := by
  have hplain : ¬ t.any needsEscape = true → ∀ c ∈ t, isPlain c = true ∨ c = '\n' := by
    intro hnone c hc
    have hkept : ¬ needsEscape c = true :=
      fun hescape => hnone (List.any_eq_true.2 ⟨c, hc, hescape⟩)
    by_cases hfeed : c = '\n'
    · exact .inr hfeed
    · exact .inl (by simpa [needsEscape, hfeed] using hkept)
  have hbasic : ∀ lines, Admits ⟨true, lines⟩ t := fun _ h => Bool.noConfusion h
  unfold choose
  dsimp only
  split
  · exact hbasic false
  · split
    · rename_i hfits
      refine fun _ => ⟨fun c hc => (hplain hfits.1 c hc).imp_right ?_, Nat.le_of_eq hfits.2.1⟩
      rintro rfl
      exact absurd (List.elem_iff.2 hc) hfits.2.2
    · split
      · exact hbasic true
      · split
        · rename_i hfits
          exact fun _ => ⟨fun c hc => (hplain hfits.1 c hc).imp_right fun hc => ⟨hc, rfl⟩, hfits.2⟩
        · split
          · exact hbasic true
          · exact hbasic false

end Quoting

/-- A string of one line does not begin with three quotes. -/
theorem Quoting.Admits.not_three {q : Quoting} {t : List Char} (h : q.Admits t)
    (hlines : q.lines = false) {rest : List Char} (hrest : rest.head? ≠ some q.mark) :
    ¬ [q.mark, q.mark] <+: q.encode 0 t ++ q.mark :: rest := by
  have hnone : q.maxQuotes = 0 := by
    rw [Quoting.maxQuotes, hlines, if_neg Bool.false_ne_true]
  rcases h.inside.leading (Nat.zero_le _) with ⟨k, hk, hencoded⟩
  have hzero : k = 0 := by omega
  subst hzero
  rcases hencoded with hall | ⟨c, more, hc, hsome⟩
  · rw [hall]
    rintro ⟨more, hmore⟩
    simp only [List.replicate_zero, List.nil_append, List.cons_append, List.cons.injEq,
      true_and] at hmore
    exact hrest (hmore ▸ rfl)
  · rw [hsome]
    rintro ⟨others, hothers⟩
    simp only [List.replicate_zero, List.nil_append, List.cons_append, List.cons.injEq] at hothers
    exact hc hothers.1.symm

theorem scanText_double {cs : List Char} (h : ¬ ['"', '"'] <+: cs) :
    scanText ('"' :: cs) = Quoting.basic.scan ('"' :: cs) := by
  unfold scanText
  split
  · rename_i more heq
    exact absurd ⟨more, (List.cons.inj heq).2.symm⟩ h
  · rfl
  · rename_i heq
    exact absurd (List.cons.inj heq).1 (by decide)
  · rename_i heq
    exact absurd (List.cons.inj heq).1 (by decide)
  · rename_i hother _ _
    exact absurd rfl (hother _)

theorem scanText_single {cs : List Char} (h : ¬ ['\'', '\''] <+: cs) :
    scanText ('\'' :: cs) = Quoting.literal.scan ('\'' :: cs) := by
  unfold scanText
  split
  · rename_i heq
    exact absurd (List.cons.inj heq).1 (by decide)
  · rename_i heq
    exact absurd (List.cons.inj heq).1 (by decide)
  · rename_i more heq
    exact absurd ⟨more, (List.cons.inj heq).2.symm⟩ h
  · rfl
  · rename_i hother
    exact absurd rfl (hother _)

/-- The quotes tell how a string is written. -/
theorem scanText_write {q : Quoting} {t rest : List Char} (h : q.Admits t)
    (hrest : rest.head? ≠ some q.mark) :
    scanText (q.write t ++ rest) = q.scan (q.write t ++ rest) := by
  have hthree : q.lines = false → ¬ [q.mark, q.mark] <+: q.encode 0 t ++ q.mark :: rest :=
    fun hlines => h.not_three hlines hrest
  have hwrite : q.lines = false →
      q.write t ++ rest = q.mark :: (q.encode 0 t ++ q.mark :: rest) := by
    intro hlines
    simp [Quoting.write, Quoting.delimiter, hlines]
  rcases q with ⟨_ | _, _ | _⟩
  · rw [hwrite rfl]
    exact scanText_single (hthree rfl)
  · rfl
  · rw [hwrite rfl]
    exact scanText_double (hthree rfl)
  · rfl

/-- A text is read back as it is written, if no quote follows. -/
theorem scanText_writeText (text : String) {rest : List Char} (hdouble : rest.head? ≠ some '"')
    (hsingle : rest.head? ≠ some '\'') :
    scanText ((writeText text).toList ++ rest) = some (text, rest) := by
  have hrest : rest.head? ≠ some (Quoting.choose text.toList).mark := by
    unfold Quoting.mark
    split
    · exact hdouble
    · exact hsingle
  have h := Quoting.admits_choose text.toList
  rw [writeText, String.toList_ofList, scanText_write h hrest, h.scan_write hrest,
    String.ofList_toList]

end Toml
end AgeCrypt
