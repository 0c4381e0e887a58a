import AgeCrypt.Armor.Error
import AgeCrypt.Payload.Error

/-!
# Input and output errors

What can go wrong when bytes are moved.  The formats that work on a stream report their own faults
through it, so an I/O error may carry a payload error or an armor error.
-/

namespace AgeCrypt

inductive ErrorKind where
  | notFound
  | alreadyExists
  | isADirectory
  | notADirectory
  | unexpectedEof
  | invalidData
  | interrupted
  | writeZero
  | invalidInput
  | invalidFilename
  | other
deriving DecidableEq, Repr

/-- What the file system answers to a request it cannot meet. -/
inductive SystemError where
  | notFound
  | alreadyExists
  | notADirectory
  | isADirectory
  | nameTooLong
  | zeroInPath
deriving DecidableEq, Repr

namespace SystemError

def kind : SystemError → ErrorKind
  | notFound => .notFound
  | alreadyExists => .alreadyExists
  | notADirectory => .notADirectory
  | isADirectory => .isADirectory
  | nameTooLong => .invalidFilename
  | zeroInPath => .invalidInput

/-- The text of an error, with its number.  A path that holds a zero never reaches the system, so
that error has none. -/
def message : SystemError → String
  | notFound => "No such file or directory (os error 2)"
  | alreadyExists => "File exists (os error 17)"
  | notADirectory => "Not a directory (os error 20)"
  | isADirectory => "Is a directory (os error 21)"
  | nameTooLong => "File name too long (os error 36)"
  | zeroInPath => "file name contained an unexpected NUL byte"

end SystemError

inductive IoError where
  -- Reported by the device that was read or written.
  | device (kind : ErrorKind) (text : String)
  | system (cause : SystemError)
  -- Fewer bytes were left than were asked for.
  | shortRead
  -- A sink took none of the bytes offered.
  | shortWrite
  | invalidUtf8
  -- A passphrase was asked for and nobody can be asked.
  | noTerminal
  | payload (cause : PayloadError)
  | armor (cause : ArmorError)
deriving DecidableEq, Repr

namespace IoError

def kind : IoError → ErrorKind
  | device kind _ => kind
  | system cause => cause.kind
  | shortRead => .unexpectedEof
  | shortWrite => .writeZero
  | invalidUtf8 => .invalidData
  | noTerminal => .other
  | payload .truncated => .unexpectedEof
  | payload .writerFailed => .other
  | payload _ => .invalidData
  | armor _ => .invalidData

def message : IoError → String
  | device _ text => text
  | system cause => cause.message
  | shortRead => "failed to fill whole buffer"
  | shortWrite => "failed to write whole buffer"
  | invalidUtf8 => "stream did not contain valid UTF-8"
  | noTerminal => "no terminal"
  | payload cause => cause.message
  | armor cause => cause.message

/-- Whether the operation was merely interrupted and may be tried again. -/
def isInterrupted (e : IoError) : Bool :=
  e.kind == .interrupted

end IoError

/-- Results can be compared where their values and errors can. -/
instance decidableEqExcept {ε α : Type} [DecidableEq ε] [DecidableEq α] :
    DecidableEq (Except ε α)
  | .ok a, .ok b => decidable_of_iff (a = b) ⟨congrArg Except.ok, Except.ok.inj⟩
  | .error e, .error f => decidable_of_iff (e = f) ⟨congrArg Except.error, Except.error.inj⟩
  | .ok _, .error _ => isFalse fun h => nomatch h
  | .error _, .ok _ => isFalse fun h => nomatch h

end AgeCrypt
