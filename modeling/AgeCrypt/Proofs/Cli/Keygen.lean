import AgeCrypt.Proofs.Cli.RoundTrip
import AgeCrypt.Proofs.Keys.IdentityLines

/-!
# The files of secret keys

What an identity file is read as is said line by line, and what `keygen` writes, to standard output
or to a file, is read as the key that it made (`read_identity_lines`).
-/

namespace AgeCrypt
namespace Cli

open Crypto IdentityFile

/-- The keys of a file are those on its lines, in order, if no line is bad and there are any.  The
first bad line is reported otherwise, the lines counted from 1.  Idle lines put anywhere change only
the number of a bad line behind them, by as many as they are.  What `keygen` writes holds the key
that it made. -/
theorem read_identity_lines (S : Suite) (host : Host) {σ τ : Type} [ByteSource σ] [ByteSource τ]
    {b : Buffered σ} {c : Buffered τ} {data data' : Bytes} (hb : b.Holds data)
    (hc : c.Holds data') :
    (∀ keys, read b = .ok keys ↔ Collected (lines data) keys ∧ keys ≠ []) ∧
      (∀ number, read b = .error (.malformedLine number) ↔ ∃ before line after keys,
        lines data = before ++ line :: after ∧ Collected before keys ∧ IsBad line ∧
          number = before.length + 1) ∧
      (read b = .error .noKeys ↔ Collected (lines data) []) ∧
      (∀ cause, read b ≠ .error (.io cause)) ∧
      (∀ before idle after, lines data = before ++ after →
        lines data' = before ++ (idle ++ after) → (∀ line ∈ idle, IsIdle line) →
          read c = (read b).mapError (shift before.length idle.length)) ∧
      (data = (keygen S host none).stdout → read b = .ok [(SecretKey.generate host.tape).1]) ∧
      ∀ path, (keygen S host (some path)).result = .ok () →
        (keygen S host (some path)).files.read path = .ok data →
          read b = .ok [(SecretKey.generate host.tape).1] := by
  refine ⟨fun keys => read_eq_ok_iff hb, fun number => read_eq_malformedLine_iff hb,
    read_eq_noKeys_iff hb, read_ne_io hb, ?_, ?_, ?_⟩
  · intro before idle after hlines hlines' hidle
    exact read_insert hb hc hlines hlines' hidle
  · rintro rfl
    exact read_fileText (S := S) hb
  · intro path hmade hread
    cases hread.symm.trans (of_keygen_ok hmade).2
    exact read_fileText hb

/-- A file whose second line is neither a key nor idle. -/
def badFile : Bytes :=
  Text.utf8 "# old\r\nAGE\n"

/-- The same file with more idle lines, one of them blank and one a comment. -/
def longBadFile : Bytes :=
  Text.utf8 "# old\r\n\t \n #\r\nAGE\n"

/-- A bad line is reported where it is, and after two more lines two lines later; what is printed
for a new key is read as the key. -/
theorem read_identity_lines_samples :
    read ({ inner := .ofBytes badFile } : Buffered ScriptedSource) =
        .error (.malformedLine 2) ∧
      read ({ inner := .ofBytes longBadFile } : Buffered ScriptedSource) =
        .error (.malformedLine 4) ∧
      read ({ inner := .ofBytes (keygen .transparent sampleKeyHost none).stdout } :
        Buffered ScriptedSource) = .ok [(SecretKey.generate sampleTape).1] := by
  have hsplit : lines badFile = [Text.utf8 "# old"] ++ [Text.utf8 "AGE", []] := by
    decide +kernel
  have hlong : lines longBadFile =
      [Text.utf8 "# old"] ++ ([Text.utf8 "\t ", Text.utf8 " #"] ++ [Text.utf8 "AGE", []]) := by
    decide +kernel
  have hidle : ∀ line ∈ [Text.utf8 "# old", Text.utf8 "\t ", Text.utf8 " #"], IsIdle line := by
    decide +kernel
  have hbad : IsBad (Text.utf8 "AGE") := by
    decide +kernel
  have hkeys : Collected [Text.utf8 "# old"] [] :=
    .idle (hidle _ (List.mem_cons_self ..)) .nil
  rcases read_identity_lines .transparent sampleKeyHost (holds_file badFile)
    (holds_file longBadFile) with ⟨-, hline, -, -, hinsert, -⟩
  have hfirst := (hline 2).2 ⟨_, _, _, _, hsplit, hkeys, hbad, rfl⟩
  have hsecond := hinsert _ _ _ hsplit hlong fun line hline =>
    hidle line (List.mem_cons_of_mem _ hline)
  rcases read_identity_lines .transparent sampleKeyHost
    (holds_file (keygen .transparent sampleKeyHost none).stdout) (holds_file []) with
    ⟨-, -, -, -, -, hprinted, -⟩
  refine ⟨hfirst, ?_, hprinted rfl⟩
  rw [hsecond, hfirst]
  rfl

end Cli
end AgeCrypt
