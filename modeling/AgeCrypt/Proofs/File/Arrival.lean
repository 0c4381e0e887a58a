import AgeCrypt.Base64.Standard
import AgeCrypt.Proofs.Armor.Arrival
import AgeCrypt.Proofs.File.Transparency

/-!
# Files, however they arrive

The same bytes may arrive in portions of any sizes, through buffers of any room.  Whether they are
taken for an armored text is judged by the first portion, and that is all that the arrival decides:
inputs that are judged alike are opened alike (`OpenedFile.answers_eq_of_judged`), and inputs that
are not are refused, each with an error of its own (`OpenedFile.start_of_misjudged`).

The judgement is right for all bytes that begin with the begin marker and for all that do not begin
with a hyphen (`Armor.isArmored_of_telling`), so no file that can be opened depends on its arrival.
Of other bytes the first few may look like the marker.
-/

namespace AgeCrypt

open ByteSource Buffered Crypto

section

variable {σ : Type} [ByteSource σ]

/-! ## The judgement -/

namespace Armor

variable {input : Buffered σ} {data : Bytes}

/-- Bytes that begin with the marker, or do not begin with a hyphen, are judged rightly however few
of them are seen. -/
theorem isArmored_of_telling (htelling : Bytes.ascii "-" <+: data → beginMarker <+: data)
    (h : input.Holds data) (hfill : input.fill.1 = .ok ()) :
    (isArmored input).1 = .ok (decide (beginMarker <+: data)) := by
  by_cases hmarker : beginMarker <+: data
  · rcases isArmored_of_marker hmarker h hfill with ⟨b, hb, -⟩
    rw [hb, decide_eq_true hmarker]
  · rcases isArmored_of_binary (fun hhyphen => hmarker (htelling hhyphen)) h hfill with ⟨b, hb, -⟩
    rw [hb, decide_eq_false hmarker]

end Armor

/-! ## Refusals -/

/-- A line that begins with a hyphen is not the one every file begins with. -/
theorem Header.cons_hyphen_dropLast_ne_intro (tail : Bytes) : (45 :: tail).dropLast ≠ intro := by
  intro heq
  have hfirst : (45 :: tail).dropLast.head? = some 97 := by
    rw [heq]
    decide
  cases tail with
  | nil => cases hfirst
  | cons y tail => cases hfirst

variable [Base64]

/-- Input that begins with a hyphen is no header. -/
theorem Decryptor.start_of_hyphen {input : Buffered σ} {data : Bytes}
    (hhyphen : Bytes.ascii "-" <+: data) (h : input.Holds data) :
    ∃ cause, start input = .error (.header cause) ∧ ∀ e, cause ≠ .io e := by
  have hline : ∃ tail,
      (through Ascii.newline (clip (some (maxLineLength + 1)) data)).1 = 45 :: tail := by
    rcases hhyphen with ⟨rest, rfl⟩
    exact ⟨(through Ascii.newline (rest.take maxLineLength)).1, rfl⟩
  rcases hline with ⟨tail, htail⟩
  rcases h.readLine (some (maxLineLength + 1)) with ⟨c, ⟨hc, -⟩ | ⟨e, -, hend, -⟩⟩
  · rw [htail] at hc
    by_cases hended : (45 :: tail).getLast? = some Ascii.newline
    · have hnext : Header.nextLine input 0 = (.ok (some (45 :: tail).dropLast), c) := by
        simp only [Header.nextLine, hc, hended, if_true]
      refine ⟨.wrongIntro, ?_, fun _ => HeaderError.noConfusion⟩
      simp only [start, Header.read, hnext, Header.cons_hyphen_dropLast_ne_intro, if_false]
    · by_cases hlong : (45 :: tail).length = maxLineLength + 1
      · have hnext : Header.nextLine input 0 = (.error (.lineTooLong 1), c) := by
          simp only [Header.nextLine, hc, hended, hlong, if_true, if_false, Nat.zero_add]
        exact ⟨.lineTooLong 1, by simp only [start, Header.read, hnext],
          fun _ => HeaderError.noConfusion⟩
      · have hnext : Header.nextLine input 0 = (.error .truncated, c) := by
          simp only [Header.nextLine, hc, hended, hlong, if_false]
        exact ⟨.truncated, by simp only [start, Header.read, hnext],
          fun _ => HeaderError.noConfusion⟩
  · cases hend

/-- Behind an armor reader, input that does not begin with the marker has no header. -/
theorem Decryptor.start_of_unmarked {input : Buffered σ} {data : Bytes}
    (hmarker : ¬ Armor.beginMarker <+: data) (h : input.Holds data) :
    ∃ e, start ({ inner := ({ inner := input } : ArmorReader σ) } : Buffered (ArmorReader σ)) =
      .error (.header (.io e)) := by
  rcases ArmorReader.fill_of_unmarked hmarker h with ⟨e, r, hfill⟩
  have hfatal : e.isInterrupted = false := (ArmorReader.fill_error hfill rfl).2
  have hread (n : Nat) :
      ByteSource.read ({ inner := input } : ArmorReader σ) n = (.error e, r) := by
    change ArmorReader.read _ n = _
    simp only [ArmorReader.read, Window.isSpent, hfill]
    rfl
  have hempty : Buffered.fill ({ inner := ({ inner := input } : ArmorReader σ) } : Buffered _) =
      (.error e, { inner := r }) := by
    simp only [Buffered.fill, hread, if_true]
  have hline : ({ inner := ({ inner := input } : ArmorReader σ) } : Buffered _).readLine
      (some (maxLineLength + 1)) = (.error e, { inner := r }) := by
    rw [readLine, readThrough, readThroughFrom_eq _ _ (by decide), hempty]
    simp only [hfatal, Bool.false_eq_true, if_false]
  refine ⟨e, ?_⟩
  simp only [start, Header.read, Header.nextLine, hline]

end

/-! ## Files of either form -/

namespace OpenedFile

section

variable [Base64] {S : Suite} {σ τ : Type} [ByteSource σ] [ByteSource τ]
variable {a : Buffered σ} {b : Buffered τ} {data : Bytes}

/-- Inputs that are judged alike are opened alike. -/
theorem answers_eq_of_judged (ha : a.Holds data) (hb : b.Holds data) (ha_fill : a.fill.1 = .ok ())
    (hb_fill : b.fill.1 = .ok ()) (hjudged : (Armor.isArmored a).1 = (Armor.isArmored b).1)
    (identities : List Identity) (sizes : List Nat) :
    (start a).map (answers S identities sizes) = (start b).map (answers S identities sizes) := by
  rcases Armor.isArmored_of_holds ha ha_fill with ⟨judged, a', -, ha_eq, ha', -⟩
  rcases Armor.isArmored_of_holds hb hb_fill with ⟨judged', b', -, hb_eq, hb', -⟩
  rw [ha_eq, hb_eq] at hjudged
  cases hjudged
  cases judged with
  | false =>
      rw [start_of_unarmored ha_eq, start_of_unarmored hb_eq,
        Decryptor.answers_eq ha' hb' identities sizes]
  | true =>
      have habreast : Abreast ({ inner := ({ inner := a' } : ArmorReader σ) } : Buffered _)
          ({ inner := ({ inner := b' } : ArmorReader τ) } : Buffered _) :=
        .reflected (.intro (ArmorReader.Likewise.mirrored (.intro ha' hb')))
      rw [start_of_armored ha_eq, start_of_armored hb_eq,
        Decryptor.answers_eq_of_abreast habreast identities sizes]

/-- Of two inputs that are judged differently, the one is refused for what the armor reader says of
its first line, the other for what its header lacks. -/
theorem start_of_misjudged (ha : a.Holds data) (hb : b.Holds data) (ha_fill : a.fill.1 = .ok ())
    (hb_fill : b.fill.1 = .ok ()) (ha_judged : (Armor.isArmored a).1 = .ok true)
    (hb_judged : (Armor.isArmored b).1 = .ok false) :
    ∃ e cause, start a = .error (.header (.header (.io e))) ∧
      start b = .error (.header (.header cause)) ∧ cause ≠ .io e := by
  have hhyphen : Bytes.ascii "-" <+: data := by
    refine Decidable.byContradiction fun hbinary => ?_
    rcases Armor.isArmored_of_binary hbinary ha ha_fill with ⟨c, hc, -⟩
    rw [hc] at ha_judged
    cases ha_judged
  have hmarker : ¬ Armor.beginMarker <+: data := by
    intro hmarker
    rcases Armor.isArmored_of_marker hmarker hb hb_fill with ⟨c, hc, -⟩
    rw [hc] at hb_judged
    cases hb_judged
  rcases Armor.isArmored_of_holds ha ha_fill with ⟨judged, a', -, ha_eq, ha', -⟩
  rcases Armor.isArmored_of_holds hb hb_fill with ⟨judged', b', -, hb_eq, hb', -⟩
  rw [ha_eq] at ha_judged
  rw [hb_eq] at hb_judged
  cases ha_judged
  cases hb_judged
  rcases Decryptor.start_of_unmarked hmarker ha' with ⟨e, he⟩
  rcases Decryptor.start_of_hyphen hhyphen hb' with ⟨cause, hcause, hother⟩
  refine ⟨e, cause, ?_, ?_, hother e⟩
  · simp only [start, ha_eq, he]
  · simp only [start, hb_eq, hcause]

/-- The arrival of bytes decides only what they are taken for.  Two inputs that hold the same bytes,
in portions and buffers of any sizes, are opened alike exactly if they are judged alike; otherwise
both are refused, and for different reasons.  Bytes that begin with the begin marker, or do not
begin with a hyphen, are always judged by whether they begin with the marker. -/
theorem answers_eq_iff (ha : a.Holds data) (hb : b.Holds data) (ha_fill : a.fill.1 = .ok ())
    (hb_fill : b.fill.1 = .ok ()) (identities : List Identity) (sizes : List Nat) :
    ((start a).map (answers S identities sizes) = (start b).map (answers S identities sizes) ↔
        (Armor.isArmored a).1 = (Armor.isArmored b).1) ∧
      ((Armor.isArmored a).1 ≠ (Armor.isArmored b).1 →
        ∃ cause cause', start a = .error (.header cause) ∧ start b = .error (.header cause') ∧
          cause ≠ cause') ∧
      ((Bytes.ascii "-" <+: data → Armor.beginMarker <+: data) →
        (Armor.isArmored a).1 = .ok (decide (Armor.beginMarker <+: data)) ∧
          (Armor.isArmored b).1 = .ok (decide (Armor.beginMarker <+: data))) := by
  have hrefused (hjudged : (Armor.isArmored a).1 ≠ (Armor.isArmored b).1) :
      ∃ cause cause', start a = .error (.header cause) ∧ start b = .error (.header cause') ∧
        cause ≠ cause' := by
    rcases Armor.isArmored_of_holds ha ha_fill with ⟨judged, a', -, ha_eq, -⟩
    rcases Armor.isArmored_of_holds hb hb_fill with ⟨judged', b', -, hb_eq, -⟩
    rw [ha_eq, hb_eq] at hjudged
    match judged, judged' with
    | true, true => exact absurd rfl hjudged
    | false, false => exact absurd rfl hjudged
    | true, false =>
        rcases start_of_misjudged ha hb ha_fill hb_fill (congrArg Prod.fst ha_eq)
          (congrArg Prod.fst hb_eq) with ⟨e, cause, he, hcause, hne⟩
        exact ⟨_, _, he, hcause, fun heq => hne (DecryptError.header.inj heq).symm⟩
    | false, true =>
        rcases start_of_misjudged hb ha hb_fill ha_fill (congrArg Prod.fst hb_eq)
          (congrArg Prod.fst ha_eq) with ⟨e, cause, he, hcause, hne⟩
        exact ⟨_, _, hcause, he, fun heq => hne (DecryptError.header.inj heq)⟩
  refine ⟨⟨?_, fun hjudged => answers_eq_of_judged ha hb ha_fill hb_fill hjudged identities sizes⟩,
    hrefused, fun htelling => ⟨?_, ?_⟩⟩
  · intro hsame
    refine Classical.byContradiction fun hjudged => ?_
    rcases hrefused hjudged with ⟨cause, cause', hcause, hcause', hne⟩
    rw [hcause, hcause'] at hsame
    simp only [Except.map, Except.error.injEq, Failure.header.injEq] at hsame
    exact hne hsame
  · exact Armor.isArmored_of_telling htelling ha ha_fill
  · exact Armor.isArmored_of_telling htelling hb hb_fill

end

/-- A hyphen and a letter are no armored text, and given whole they are not taken for one.  Given a
byte at a time they are, and so refused for another reason. -/
theorem answers_eq_iff_hyphen :
    (start { inner := ScriptedSource.ofBytes (Bytes.ascii "-x") }).map (answers .standard [] []) ≠
      (start { inner := { data := Bytes.ascii "-x", portions := #[1] : ScriptedSource } }).map
        (answers .standard [] []) := by
  have hheld : ({ inner := { data := Bytes.ascii "-x", portions := #[1] } } :
      Buffered ScriptedSource).Holds (Bytes.ascii "-x") :=
    .of_delivers (ScriptedSource.delivers (by simp) (by simp))
  have hwhole :
      (Armor.isArmored { inner := ScriptedSource.ofBytes (Bytes.ascii "-x") }).1 = .ok false := rfl
  have hbytewise : (Armor.isArmored
      { inner := { data := Bytes.ascii "-x", portions := #[1] : ScriptedSource } }).1 =
        .ok true := rfl
  intro hsame
  have hjudged := (answers_eq_iff (holds_file (Bytes.ascii "-x")) hheld rfl rfl [] []).1.1 hsame
  rw [hwhole, hbytewise] at hjudged
  cases hjudged

end OpenedFile
end AgeCrypt
