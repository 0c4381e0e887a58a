import AgeCrypt.Base64.Standard
import AgeCrypt.Keys.FileKey
import AgeCrypt.Proofs.Crypto.Transparent
import AgeCrypt.Proofs.Header.Reading

/-!
# What the code of a header vouches for

The code of a header covers the bytes `Header.signedBytes`, in which types, arguments and bodies
stand one behind the other with blanks and line feeds between them and no lengths.  They determine
the stanzas nevertheless, whatever their number and size, as long as each can be written
(`signedBytes_prefix_iff`): every part ends where the first byte stands that it cannot contain, and
a body ends with its first short line.

So whoever makes two headers pass with one code has found two messages with the same code
(`stanzas_determined`).
-/

namespace AgeCrypt

/-! ## Stanzas -/

namespace Stanza

/-- No line opens two stanzas. -/
theorem openingLine_inj {s t : Stanza} (hs : s.Named) (ht : t.Named)
    (h : s.openingLine = t.openingLine) : s.tag = t.tag ∧ s.args = t.args := by
  have hparsed : Header.parseOpening 0 s.openingLine = .ok (s.tag, s.args) :=
    (Header.parseOpening_eq_ok_iff s.body).2 ⟨rfl, hs⟩
  have hparsed' : Header.parseOpening 0 s.openingLine = .ok (t.tag, t.args) :=
    (Header.parseOpening_eq_ok_iff t.body).2 ⟨h, ht⟩
  rw [hparsed] at hparsed'
  exact Prod.mk.inj (Except.ok.inj hparsed')

variable [Base64]

/-- No bytes begin with two bodies. -/
theorem encodeBody_append_inj {a b x y : Bytes} (h : encodeBody a ++ x = encodeBody b ++ y) :
    a = b ∧ x = y := by
  -- line by line; the other body goes on just as long, since its lines are as long
  fun_induction encodeBody a generalizing b with
  | case1 a hshort =>
      rw [Header.encodeBody_eq b, List.append_assoc, List.append_assoc, List.cons_append] at h
      rcases Buffered.split_inj (Header.newline_notMem_encode _) (Header.newline_notMem_encode _) h
        with ⟨hline, hrest⟩
      have hpiece : a = b.take bytesPerLine := Base64.encode_inj hline
      have hb : b.length < bytesPerLine := by
        rw [hpiece, List.take_take, Nat.min_self, List.length_take] at hshort
        omega
      rw [Header.bodyTail, if_pos hb] at hrest
      rw [List.take_of_length_le (Nat.le_of_lt hb)] at hpiece
      exact ⟨hpiece, hrest⟩
  | case2 a hfull ih =>
      rw [Header.encodeBody_eq b, List.append_assoc, List.append_assoc, List.append_assoc,
        List.cons_append] at h
      rcases Buffered.split_inj (Header.newline_notMem_encode _) (Header.newline_notMem_encode _) h
        with ⟨hline, hrest⟩
      have hpiece : a.take bytesPerLine = b.take bytesPerLine := Base64.encode_inj hline
      have hb : ¬ b.length < bytesPerLine := by
        rw [hpiece, List.length_take] at hfull
        omega
      rw [Header.bodyTail, if_neg hb] at hrest
      rcases ih hrest with ⟨hdrop, hxy⟩
      refine ⟨?_, hxy⟩
      rw [← List.take_append_drop bytesPerLine a, hpiece, hdrop, List.take_append_drop]

/-- No bytes begin with two stanzas. -/
theorem encode_append_inj {s t : Stanza} (hs : s.Named) (ht : t.Named) {x y : Bytes}
    (h : s.encode ++ x = t.encode ++ y) : s = t ∧ x = y := by
  simp only [encode, List.append_assoc, List.singleton_append] at h
  rcases Buffered.split_inj (Header.newline_notMem_openingLine hs)
    (Header.newline_notMem_openingLine ht) h with ⟨hline, hrest⟩
  rcases openingLine_inj hs ht hline with ⟨htag, hargs⟩
  rcases encodeBody_append_inj hrest with ⟨hbody, hxy⟩
  cases s
  cases t
  cases htag
  cases hargs
  cases hbody
  exact ⟨rfl, hxy⟩

end Stanza

/-! ## Lists of stanzas -/

namespace Header

section

variable [Base64]

/-- Behind stanzas, the mark of the closing line shows that there are no more. -/
theorem flatMap_encode_append_inj {a b : List Stanza} (ha : ∀ s ∈ a, s.Named)
    (hb : ∀ s ∈ b, s.Named) {x y : Bytes}
    (h : a.flatMap Stanza.encode ++ (closingMark ++ x) =
      b.flatMap Stanza.encode ++ (closingMark ++ y)) : a = b ∧ x = y := by
  have hmark : ∀ (s : Stanza) (u v : Bytes), closingMark ++ u ≠ s.encode ++ v := by
    intro s u v heq
    have hbegins : closingMark.isPrefixOf (s.encode ++ v) = true := by
      rw [← heq, List.isPrefixOf_iff_prefix]
      exact List.prefix_append ..
    exact Bool.false_ne_true hbegins
  induction a generalizing b with
  | nil =>
      cases b with
      | nil => exact ⟨rfl, List.append_cancel_left h⟩
      | cons t b =>
          rw [List.flatMap_nil, List.nil_append, List.flatMap_cons, List.append_assoc] at h
          exact absurd h (hmark t _ _)
  | cons s a ih =>
      cases b with
      | nil =>
          rw [List.flatMap_nil, List.nil_append, List.flatMap_cons, List.append_assoc] at h
          exact absurd h.symm (hmark s _ _)
      | cons t b =>
          rw [List.flatMap_cons, List.flatMap_cons, List.append_assoc, List.append_assoc] at h
          rcases Stanza.encode_append_inj (ha s (List.mem_cons_self ..))
            (hb t (List.mem_cons_self ..)) h with ⟨hst, hrest⟩
          rcases ih (fun s hs => ha s (List.mem_cons_of_mem _ hs))
            (fun t ht => hb t (List.mem_cons_of_mem _ ht)) hrest with ⟨hab, hxy⟩
          exact ⟨by rw [hst, hab], hxy⟩

/-- The bytes signed for stanzas begin with those signed for others only where they are the same. -/
theorem signedBytes_prefix_iff {a b : List Stanza} (ha : ∀ s ∈ a, s.Named)
    (hb : ∀ s ∈ b, s.Named) : signedBytes a <+: signedBytes b ↔ a = b := by
  constructor
  · rintro ⟨rest, h⟩
    simp only [signedBytes, List.append_assoc] at h
    have hstanzas := List.append_cancel_left (List.append_cancel_left h)
    rw [← List.append_nil closingMark, List.append_assoc, List.nil_append] at hstanzas
    exact (flatMap_encode_append_inj ha hb hstanzas).1
  · rintro rfl
    exact List.prefix_rfl

/-- What is signed determines the stanzas, whatever their bodies, if all of them pass validation:
equal bytes are signed for equal lists only, and the bytes signed for one list are never continued
by those for another.  So where two headers of such stanzas have the same code and a file key takes
it for the right one in both, they have the same stanzas, or two different messages have that code
under the key it is made with (with the standard suite, a collision of HMAC-SHA-256). -/
theorem stanzas_determined (S : Crypto.Suite) :
    (∀ a b : List Stanza, (∀ s ∈ a, s.validate = .ok ()) → (∀ s ∈ b, s.validate = .ok ()) →
      (signedBytes a = signedBytes b → a = b) ∧
        (signedBytes a <+: signedBytes b → signedBytes a = signedBytes b)) ∧
      ∀ (key : FileKey) (h h' : Header), (∀ s ∈ h.stanzas, s.validate = .ok ()) →
        (∀ s ∈ h'.stanzas, s.validate = .ok ()) →
        FileKey.verifies S key h = true → FileKey.verifies S key h' = true → h.mac = h'.mac →
        h.stanzas = h'.stanzas ∨
          signedBytes h.stanzas ≠ signedBytes h'.stanzas ∧
            S.mac (FileKey.macKey S key).bytes (signedBytes h.stanzas) =
              S.mac (FileKey.macKey S key).bytes (signedBytes h'.stanzas) := by
  have hbegins : ∀ {a b : List Stanza}, (∀ s ∈ a, s.validate = .ok ()) →
      (∀ s ∈ b, s.validate = .ok ()) → signedBytes a <+: signedBytes b → a = b :=
    fun ha hb => (signedBytes_prefix_iff (fun s hs => Stanza.validate_eq_ok_iff.1 (ha s hs))
      (fun s hs => Stanza.validate_eq_ok_iff.1 (hb s hs))).1
  constructor
  · intro a b ha hb
    exact ⟨fun heq => hbegins ha hb (heq ▸ List.prefix_rfl),
      fun hpre => congrArg signedBytes (hbegins ha hb hpre)⟩
  · intro key h h' hvalid hvalid' hverifies hverifies' hmac
    by_cases hsigned : signedBytes h.stanzas = signedBytes h'.stanzas
    · exact .inl (hbegins hvalid hvalid' (hsigned ▸ List.prefix_rfl))
    · refine .inr ⟨hsigned, ?_⟩
      have hright : FileKey.mac S key h.stanzas = h.mac := beq_iff_eq.1 hverifies
      have hright' : FileKey.mac S key h'.stanzas = h'.mac := beq_iff_eq.1 hverifies'
      exact hright.trans (hmac.trans hright'.symm)

end

/-- A stanza whose argument `bc` follows the type `a`, and one with the letter `b` moved to the
type, under a code that is the key itself: both headers pass, so two messages collide. -/
theorem stanzas_determined_moved_letter :
    let kept : Header := { stanzas := [{ tag := "a", args := ["bc"] }], mac := Block.zeros 32 }
    let moved : Header := { stanzas := [{ tag := "ab", args := ["c"] }], mac := Block.zeros 32 }
    signedBytes kept.stanzas ≠ signedBytes moved.stanzas ∧
      Crypto.Suite.transparent.mac (Block.zeros 32).bytes (signedBytes kept.stanzas) =
        Crypto.Suite.transparent.mac (Block.zeros 32).bytes (signedBytes moved.stanzas) := by
  intro kept moved
  rcases (stanzas_determined .transparent).2 (Block.zeros 16) kept moved (by decide) (by decide)
    (by decide) (by decide) rfl with hsame | hcollision
  · exact absurd hsame (by decide)
  · exact hcollision

end Header
end AgeCrypt
