import R503.RustText

/-! What the daemon's driver makes of a final response line: `expect_ok`, `parse_kv`,
`parse_field` and the results of `enroll`, `verify` and `delete` (sensor.rs). -/
namespace R503.Fprint

open Text

/-- `std::io::ErrorKind`; the daemon does not tell the unlisted ones apart. -/
inductive ErrorKind where
  | brokenPipe
  | notFound
  | notConnected
  | unexpectedEof
  | permissionDenied
  | other
  | unlisted
  deriving DecidableEq

/-- `SensorError` with its texts; `Protocol` is one text here, whatever it was made from. -/
inductive SensorError where
  | noDevice
  | openFailed (path source : Bytes)
  | io (kind : ErrorKind) (text : Bytes)
  | timeout (cmd : Bytes)
  | command (code : Bytes) (detail : Option Bytes)
  | protocol (text : Bytes)
  | counterExhausted
  deriving DecidableEq

def SensorError.text : SensorError → Bytes
  | .noDevice => ascii "no R503 serial device at /dev/ttyACM* or /dev/ttyUSB*; is the Uno plugged in?"
  | .openFailed path source => ascii "could not open " ++ path ++ ascii ": " ++ source
  | .io _ text => ascii "serial I/O error: " ++ text
  | .timeout cmd => ascii "timed out waiting for response to: " ++ cmd
  | .command code detail =>
    ascii "firmware ERR " ++ code ++ match detail with
      | none => []
      | some d => space :: d
  | .protocol text => ascii "invalid response from firmware: " ++ text
  | .counterExhausted =>
    ascii "v2 command counter exhausted (reached the reserved ceiling); " ++
      ascii "reflash-to-wipe (firmware/r503fp_wipe) + re-pair to reset"

def isFatalIo : SensorError → Bool
  | .io kind _ => kind ≠ .unlisted
  | _ => false

def splitBlank : Bytes → Option (Bytes × Bytes)
  | [] => none
  | c :: s =>
    match whitespaceLen (c :: s) with
    | 0 => (splitBlank s).map fun (first,rest) => (c :: first,rest)
    | n + 1 => some ([],s.drop n)

/-- The arm of `expect_ok` for a line that does not start with `OK`. -/
def errLine (line : Bytes) : SensorError :=
  match splitBlank line with
  | none => .command (ascii "unknown") none
  | some (_,rest) =>
    match splitBlank rest with
    | none => .command rest none
    | some (code,detail) => .command code (some detail)

def expectOk (line : Bytes) : Except SensorError Bytes :=
  match stripPrefix (ascii "OK") line with
  | some rest => .ok (trim rest)
  | none => .error (errLine line)

def parseKv (body : Bytes) : List (Bytes × Bytes) := (splitWhitespace body).filterMap (splitOnce 61)

/-- `from_str` of a value of the map; of two pairs with one key the map keeps the later. -/
def parseField (bound : Nat) (kv : List (Bytes × Bytes)) (key : Bytes) : Except SensorError Nat :=
  match kv.reverse.lookup key with
  | none => .error (.protocol (ascii "missing " ++ key))
  | some v =>
    match natFromStr bound v with
    | none => .error (.protocol (ascii "bad " ++ key))
    | some n => .ok n

structure MatchResult where
  slot : UInt8
  confidence : UInt16
  deriving DecidableEq

/-- What `execute` gave for a command: an `OK` or `ERR` line, or an error before one came. -/
abbrev Executed := Except SensorError Bytes

/-- The result of `enroll` and `delete`: the slot the firmware names under `key`. -/
def slotReply (key : Bytes) (executed : Executed) : Except SensorError UInt8 := do
  let body ← expectOk (← executed)
  return UInt8.ofNat (← parseField (2 ^ 8) (parseKv body) key)

def enrollReply : Executed → Except SensorError UInt8 := slotReply (ascii "enrolled")

def deleteReply : Executed → Except SensorError UInt8 := slotReply (ascii "deleted")

def verifyReply (executed : Executed) : Except SensorError MatchResult := do
  let kv := parseKv (← expectOk (← executed))
  let slot ← parseField (2 ^ 8) kv (ascii "match")
  let confidence ← parseField (2 ^ 16) kv (ascii "confidence")
  return ⟨UInt8.ofNat slot,UInt16.ofNat confidence⟩

/-- Only an `OK` line is ever a match: neither an `ERR` line, nor a rejected frame, nor a failed
exchange. -/
theorem verifyReply_ok (executed : Executed) (result : MatchResult) (accepted : verifyReply executed = .ok result) :
    ∃ rest, executed = .ok (ascii "OK" ++ rest) := by
  cases executed with
  | error e => cases accepted
  | ok line =>
    cases stripped : stripPrefix (ascii "OK") line with
    | none => simp [verifyReply,expectOk,stripped,bind,Except.bind] at accepted
    | some rest => exact ⟨rest,congrArg Except.ok ((stripPrefix_some_iff _ _ _).mp stripped)⟩

example : verifyReply (.ok (ascii "OK match=7 confidence=120")) = .ok ⟨7,120⟩ := by decide

example : verifyReply (.ok (ascii "ERR no_match")) = .error (.command (ascii "no_match") none) := by decide

end R503.Fprint
