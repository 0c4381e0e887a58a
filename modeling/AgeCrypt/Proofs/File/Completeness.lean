import AgeCrypt.Base64.Standard
import AgeCrypt.Proofs.File.Encryption
import AgeCrypt.Proofs.File.Watching

/-!
# No success on an incomplete file

Three writers stand on one sink, each with bytes of its own that it holds back and with its own way
to take a failure.  Whatever becomes of the sink, what it holds is a prefix of the file that the run
is to write, at every moment; and when all three report success it holds the file
(`Encryptor.writeAs_complete`).

The file is fixed by recipients, tape and plaintext (`Encryptor.file`).  A run over a sink that
awaits it leaves nothing to be awaited, or fails and leaves the sink safe
(`Encryptor.writeAs_of_awaits`); what that says of a watched sink is the theorem.
-/

namespace AgeCrypt
namespace Encryptor

open Crypto Payload ByteSink HoldingSink

variable {S : Suite} {e : Encryptor} {tape : Tape}

def dress [Base64] (armored : Bool) (out : Bytes) : Bytes :=
  if armored then Armor.text out else out

/-! ## Over any sink -/

section

variable [Base64] {τ : Type} [ByteSink τ] {awaits : τ → Bytes → Prop} {safe : τ → Prop}

/-- Write a file to a sink, in armor or not. -/
def writeAs (S : Suite) (e : Encryptor) (armored : Bool) (sink : τ) (tape : Tape)
    (pieces : List Bytes) : Except Failure Unit × τ :=
  if armored then e.writeArmored S sink tape pieces else e.writeFile S sink tape pieces

/-- A run over a sink that awaits its file gives the sink all of it, or fails. -/
theorem writeAs_of_awaits (I : Intake awaits safe) {armored : Bool} {sink : τ}
    {pieces : List Bytes} {out : Bytes} (hfile : e.file S tape pieces.flatten = .ok out)
    (h : awaits sink (dress armored out)) :
    Given awaits safe [] (e.writeAs S armored sink tape pieces) := by
  cases armored with
  | true => exact writeArmored_of_awaits I hfile h
  | false => exact writeFile_of_awaits I hfile h

/-- A run that succeeds has written some file, in full. -/
theorem exists_file_of_writeAs {armored : Bool} {sink u : τ} {pieces : List Bytes}
    (h : e.writeAs S armored sink tape pieces = (.ok (), u)) :
    ∃ out, e.file S tape pieces.flatten = .ok out := by
  cases armored with
  | true => exact exists_file_of_writeArmored h
  | false => exact exists_file_of_writeFile h

/-- Over an unfailing sink a run that has a file reports success. -/
theorem writeAs_of_unfailing (armored : Bool) {sink : τ} {pieces : List Bytes} {out : Bytes}
    (h : Unfailing sink) (hfile : e.file S tape pieces.flatten = .ok out) :
    ∃ t, e.writeAs S armored sink tape pieces = (.ok (), t) := by
  cases armored with
  | true => exact (writeArmored_of_steady steady_unfailing h hfile).imp fun _ ht => ht.1
  | false => exact (writeFile_of_steady steady_unfailing h hfile).imp fun _ ht => ht.1

/-- A sink that is watched through `f` is written to in the same way. -/
theorem writeAs_map {υ : Type} [ByteSink υ] {f : υ → τ} (F : SinkMap f) (armored : Bool) (sink : υ)
    (pieces : List Bytes) :
    e.writeAs S armored (f sink) tape pieces =
      ((e.writeAs S armored sink tape pieces).1, f (e.writeAs S armored sink tape pieces).2) := by
  cases armored with
  | true => exact writeArmored_map F e sink tape pieces
  | false => exact writeFile_map F e sink tape pieces

end

/-! ## Over holding sinks -/

section

variable [Base64] {τ : Type} [ByteSink τ] [HoldingSink τ]

/-- A run that reports success has added its file to what the sink held. -/
theorem of_writeAs_ok {armored : Bool} {sink u : τ} {pieces : List Bytes}
    (h : e.writeAs S armored sink tape pieces = (.ok (), u)) :
    ∃ out, e.file S tape pieces.flatten = .ok out ∧
      contents u = contents sink ++ dress armored out := by
  rcases exists_file_of_writeAs h with ⟨out, hfile⟩
  have hintake := HoldingSink.intake (τ := τ) (contents sink ++ dress armored out)
  have hgiven := writeAs_of_awaits hintake hfile rfl
  rw [h] at hgiven
  exact ⟨out, hfile, by simpa using hgiven.of_ok⟩

/-- Let a run over memory, where nothing fails, leave a file.  Over any other sink that is empty at
first, with the plaintext cut in any other way, what is held is a prefix of that file at every
moment, and success is reported only on the whole of it. -/
theorem writeAs_complete {armored : Bool} {plaintext : Bytes} {memory : ScriptedSink}
    (hfile : e.writeAs S armored ({} : ScriptedSink) tape [plaintext] = (.ok (), memory))
    {sink : τ} (hempty : contents sink = []) {pieces : List Bytes}
    (hpieces : pieces.flatten = plaintext) :
    let run := e.writeAs S armored (Watched.start sink) tape pieces
    (∀ moment ∈ run.2.moments, moment <+: memory.contents.toList) ∧
      (run.1 = .ok () → contents run.2.inner = memory.contents.toList) ∧
      e.writeAs S armored sink tape pieces = (run.1, run.2.inner) := by
  rcases of_writeAs_ok hfile with ⟨out, hout, hmemory⟩
  have hwhole : memory.contents.toList = dress armored out := by
    simpa using hmemory
  rw [List.flatten_singleton, ← hpieces] at hout
  have hawaits : contents (Watched.start sink).inner ++ dress armored out = dress armored out ∧
      (Watched.start sink).Within (dress armored out) := by
    have hstart : contents sink <+: dress armored out := by
      rw [hempty]
      exact List.nil_prefix
    refine ⟨?_, Watched.within_start hstart⟩
    change contents sink ++ _ = _
    rw [hempty, List.nil_append]
  have hintake := Watched.intake (τ := τ) (dress armored out)
  have hgiven := writeAs_of_awaits hintake hout hawaits
  intro run
  rw [hwhole]
  refine ⟨(hintake.safe_of_given hgiven).2, ?_, ?_⟩
  · intro hok
    simpa using (hgiven.of_fst_ok hok).1
  · exact writeAs_map Watched.sinkMap armored (Watched.start sink) pieces

end

/-- A sink that takes seven bytes at a time, is interrupted, and fails in the middle of a line. -/
def faultySink : ScriptedSink where
  portion := some 7
  faults := [(5, .fails (.device .interrupted "again")), (70, .takesNothing)]
  flushFaults := [.device .other "full"]

/-- A run in armor over the faulty sink, with the plaintext in two pieces. -/
theorem writeAs_complete_faulty :
    ∃ memory, Encryptor.writeAs .transparent ⟨[answering [⟨"x", [], []⟩]]⟩ true ({} : ScriptedSink)
        (Tape.cycle [1]) [[1, 2, 3]] = (.ok (), memory) ∧
      let run := Encryptor.writeAs .transparent ⟨[answering [⟨"x", [], []⟩]]⟩ true
        (Watched.start faultySink) (Tape.cycle [1]) [[1], [2, 3]]
      (∀ moment ∈ run.2.moments, moment <+: memory.contents.toList) ∧
        (run.1 = .ok () → contents run.2.inner = memory.contents.toList) ∧
        Encryptor.writeAs .transparent ⟨[answering [⟨"x", [], []⟩]]⟩ true faultySink
          (Tape.cycle [1]) [[1], [2, 3]] = (run.1, run.2.inner) := by
  have hnamed : ∀ s ∈ [[(⟨"x", [], []⟩ : Stanza)]].flatten, s.Named := by
    intro s hs
    rw [List.mem_singleton.1 hs]
    exact Stanza.validate_eq_ok_iff.1 rfl
  rcases exists_file_answering hnamed .transparent (Tape.cycle [1])
    ([[1, 2, 3]] : List Bytes).flatten with ⟨out, hout⟩
  rcases writeAs_of_unfailing true ScriptedSink.unfailing_empty hout with ⟨memory, hmemory⟩
  exact ⟨memory, hmemory, writeAs_complete hmemory rfl rfl⟩

end Encryptor
end AgeCrypt
