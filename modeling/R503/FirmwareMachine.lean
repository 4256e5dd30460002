import R503.FirmwareHandlers
import R503.Transition

/-! The line dispatcher of the Nano and the machine that runs it: one line is a list of
effects, and a power cut leaves a prefix of them done. -/
namespace R503.Firmware

open Text

inductive Effect where
  /-- A line on the serial port, without its terminator. -/
  | serial (line : Bytes)
  /-- A line given to `flush_line` in a framed session. -/
  | frame (key : Key) (counter : UInt64) (seq : UInt32) (body : Bytes)
  | saveCounter (counter : UInt64)
  | update (address : Nat) (value : UInt8)
  | sensor (call : SensorCall)
  /-- `dispatch` is entered, for a frame or for a plain line. -/
  | dispatch (counter : Option UInt64) (line : Bytes)
  deriving DecidableEq

def Effect.apply (e : Eeprom) : Effect → Eeprom
  | .saveCounter counter => eeSaveCounter e counter
  | .update address value => Function.update e address value
  | _ => e

def Effect.wire : Effect → Option Bytes
  | .serial line => some line
  | .frame key counter seq body =>
    some ((encodeResponseFrame key counter seq body 160).getD (ascii "ERR encode_overflow"))
  | _ => none

/-! ### Printing -/

def printTo (write : σ → UInt8 → σ × List Effect) (s : σ) : Bytes → σ × List Effect
  | [] => (s,[])
  | c :: text =>
    let (s,out) := write s c
    let (s,more) := printTo write s text
    (s,out ++ more)

def emit (write : σ → UInt8 → σ × List Effect) (finish : σ → List Effect) (s : σ) :
    List Output → List Effect
  | [] => finish s
  | .print text :: rest =>
    let (s,out) := printTo write s text
    out ++ emit write finish s rest
  | .update address value :: rest => .update address value :: emit write finish s rest
  | .sensor call :: rest => .sensor call :: emit write finish s rest

/-- `Serial` as the other end cuts it into lines. -/
def serialWrite (line : Bytes) (c : UInt8) : Bytes × List Effect :=
  if c = lineFeed then
    ([],[.serial (if line.getLast? = some carriageReturn then line.dropLast else line)])
  else (line ++ [c],[])

structure LineFramer where
  line : Bytes
  seq : UInt32

/-- Characters `write` keeps of one line. -/
def framerCapacity : Nat := 127

section
variable (key : Key) (counter : UInt64)

def flushLine (f : LineFramer) : LineFramer × List Effect :=
  if f.line = [] then (f,[]) else (⟨[],f.seq + 1⟩,[.frame key counter f.seq f.line])

/-- How the framer ends a dispatch. -/
def lastFlush (f : LineFramer) : List Effect := (flushLine key counter f).2

def LineFramer.write (f : LineFramer) (c : UInt8) : LineFramer × List Effect :=
  if c = lineFeed then flushLine key counter f
  else if c = carriageReturn then (f,[])
  else if f.line.length < framerCapacity then ({ f with line := f.line ++ [c] },[])
  else (f,[])

/-- The framed dispatch: a reset framer, the handler, and the last flush. -/
def framedDispatch (e : Eeprom) (lib : Library) (line : Bytes) : List Effect :=
  .dispatch (some counter) line ::
    emit (LineFramer.write key counter) (lastFlush key counter) ⟨[],0⟩ (dispatch e lib line)

end

def plainOutput (out : List Output) : List Effect := emit serialWrite (fun _ => []) [] out

def plainDispatch (e : Eeprom) (lib : Library) (line : Bytes) : List Effect :=
  .dispatch none line :: plainOutput (dispatch e lib line)

def frameErrorName : FrameParseStatus → String
  | .badLeader => "ERR bad_frame_leader"
  | .tooShort => "ERR frame_too_short"
  | .badSuffix => "ERR bad_frame_suffix"
  | .badMacHex => "ERR bad_mac_hex"
  | .badCounter => "ERR bad_counter"
  | .badSeq => "ERR bad_seq"
  | .macMismatch => "ERR mac_invalid"

def innerBufferSize : Nat := 96

def processLine (e : Eeprom) (lib : Library) (line : Bytes) : List Effect :=
  let paired := eeIsPaired e
  if equals line "ping" then [.serial (ascii "OK pong")]
  else if equals line "status" then plainDispatch e lib line
  else if ¬ paired then plainDispatch e lib line
  else if ¬ (ascii "C ").isPrefixOf line then [.serial (ascii "ERR mac_required")]
  else match eeLoadKey e with
    | none => [.serial (ascii "ERR no_key")]
    | some key =>
      match verifyCommandFrame key line with
      | .error rc => [.serial (ascii (frameErrorName rc))]
      | .ok (ctr,inner) =>
        let last := eeLoadCounter e
        if ctr ≤ last then [.serial (ascii "ERR replay")]
        else if ctr ≥ counterCeiling then [.serial (ascii "ERR counter_ceiling")]
        else .saveCounter ctr ::
          if inner.length ≥ innerBufferSize then [.serial (ascii "ERR frame_body_too_long")]
          else framedDispatch key ctr (eeSaveCounter e ctr) lib (cString inner)

def katKey : Key := ⟨(List.range 16).map UInt8.ofNat,by simp⟩

/-- The boot self test on four published vectors. -/
def siphashKatOk : Bool :=
  [(0,[0x31,0x0e,0x0e,0xdd,0x47,0xdb,0x6f,0x72]),(1,[0xfd,0x67,0xdc,0x93,0xc5,0x39,0xf8,0x74]),
    (8,[0x62,0x24,0x93,0x9a,0x79,0xf5,0xf5,0x93]),(15,[0xe5,0x45,0xbe,0x49,0x61,0xca,0x29,0xa1])].all
      fun v => toLeBytes (siphash24 katKey (katKey.bytes.take v.1)) == v.2

theorem siphash_kat_passes : siphashKatOk = true := by decide +kernel

/-- Boot once the self test has passed. -/
def setup (e : Eeprom) (lib : Library) : List Effect :=
  plainOutput (println [ascii "R503FP READY fw=1.1 paired=",
    if eeIsPaired e then ascii "true" else ascii "false"] ++ emitInfo lib)

/-! ### The machine -/

/-- EEPROM, the effects still to come of the line in hand, and those already done. -/
structure Nano where
  ee : Eeprom
  pending : List Effect
  trace : List Effect

inductive NanoAction where
  | receive (line : Bytes) (lib : Library)
  | tick
  | powerCycle (lib : Library)

def Nano.step (s : Nano) : NanoAction → Option Nano
  | .receive line lib =>
    if s.pending = [] then some { s with pending := processLine s.ee lib line } else none
  | .tick =>
    match s.pending with
    | [] => none
    | x :: rest => some ⟨x.apply s.ee,rest,s.trace ++ [x]⟩
  | .powerCycle lib => some { s with pending := setup s.ee lib }

/-! ### What printing can do -/

def Effect.IsOutput : Effect → Prop
  | .serial _ | .frame _ _ _ _ | .sensor _ => True
  | .saveCounter _ | .update _ _ | .dispatch _ _ => False

def Effect.IsPlain : Effect → Prop
  | .serial _ | .sensor _ => True
  | .frame _ _ _ _ | .saveCounter _ | .update _ _ | .dispatch _ _ => False

def Effect.IsFramed : Effect → Prop
  | .frame _ _ _ _ | .sensor _ => True
  | .serial _ | .saveCounter _ | .update _ _ | .dispatch _ _ => False

theorem Effect.IsPlain.isOutput {x : Effect} (plain : x.IsPlain) : x.IsOutput := by
  cases x <;> trivial

theorem Effect.IsFramed.isOutput {x : Effect} (framed : x.IsFramed) : x.IsOutput := by
  cases x <;> trivial

theorem Effect.IsOutput.apply {x : Effect} (output : x.IsOutput) (e : Eeprom) : x.apply e = e := by
  cases x <;> first | rfl | cases output

section
variable (write : σ → UInt8 → σ × List Effect) (finish : σ → List Effect) (P : Effect → Prop)

theorem printTo_all (writes : ∀ s c, ∀ x ∈ (write s c).2, P x) (s : σ) (text : Bytes) :
    ∀ x ∈ (printTo write s text).2, P x := by
  induction text generalizing s with
  | nil => simp [printTo]
  | cons c text ih =>
    intro x member
    rcases List.mem_append.mp member with first | rest
    · exact writes s c x first
    · exact ih _ x rest

/-- A print target adds nothing but its lines to what the handler does itself. -/
theorem emit_all (writes : ∀ s c, ∀ x ∈ (write s c).2, P x) (finishes : ∀ s, ∀ x ∈ finish s, P x)
    (sensors : ∀ call, P (.sensor call)) (s : σ) (out : List Output) :
    ∀ x ∈ emit write finish s out, P x ∨ ∃ a v, .update a v ∈ out ∧ x = .update a v := by
  induction out generalizing s with
  | nil => exact fun x member => Or.inl (finishes s x member)
  | cons o out ih =>
    have later (s : σ) (x : Effect) (member : x ∈ emit write finish s out) :
        P x ∨ ∃ a v, .update a v ∈ o :: out ∧ x = .update a v :=
      (ih s x member).imp_right fun ⟨a,v,there,same⟩ => ⟨a,v,List.mem_cons_of_mem _ there,same⟩
    intro x member
    cases o with
    | print text =>
      rcases List.mem_append.mp member with first | rest
      · exact Or.inl (printTo_all write P writes s text x first)
      · exact later _ x rest
    | update a v =>
      rcases List.mem_cons.mp member with rfl | rest
      · exact Or.inr ⟨a,v,by simp,rfl⟩
      · exact later _ x rest
    | sensor call =>
      rcases List.mem_cons.mp member with rfl | rest
      · exact Or.inl (sensors call)
      · exact later _ x rest

/-- A handler that updates nothing leaves only what its target prints. -/
theorem emit_still (writes : ∀ s c, ∀ x ∈ (write s c).2, P x) (finishes : ∀ s, ∀ x ∈ finish s, P x)
    (sensors : ∀ call, P (.sensor call)) (s : σ) (out : List Output)
    (still : ∀ o ∈ out, o.isUpdate = false) : ∀ x ∈ emit write finish s out, P x := by
  intro x member
  rcases emit_all write finish P writes finishes sensors s out x member with output | ⟨a,v,there,_⟩
  · exact output
  · cases still _ there

end

theorem serialWrite_plain (line : Bytes) (c : UInt8) : ∀ x ∈ (serialWrite line c).2, x.IsPlain := by
  unfold serialWrite
  split
  · intro x member
    obtain rfl := List.mem_singleton.mp member
    trivial
  · simp

theorem flushLine_framed (key : Key) (counter : UInt64) (f : LineFramer) :
    ∀ x ∈ (flushLine key counter f).2, x.IsFramed := by
  unfold flushLine
  split
  · simp
  · intro x member
    obtain rfl := List.mem_singleton.mp member
    trivial

theorem framerWrite_framed (key : Key) (counter : UInt64) (f : LineFramer) (c : UInt8) :
    ∀ x ∈ (f.write key counter c).2, x.IsFramed := by
  unfold LineFramer.write
  split
  · exact flushLine_framed key counter f
  split
  · simp
  split <;> simp

end R503.Firmware
