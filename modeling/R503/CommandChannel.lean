import R503.Channel
import R503.FramedSession
import R503.HostSession

/-! Daemon and Nano on one serial line: `execute_framed` at one end, `process_line` at the
other, and a wire that may do anything but present a tag nobody made. -/
namespace R503

open Text Host Firmware

/-- A call of `execute_framed` that has not returned. -/
structure Call where
  counter : UInt64
  cmd : Bytes
  expectedSeq : UInt32
  progress : List Bytes
  deriving DecidableEq

structure Outcome where
  counter : UInt64
  cmd : Bytes
  progress : List Bytes
  body : Bytes

structure World where
  nano : Nano
  call : Option Call
  /-- Counter and command of every call so far. -/
  calls : List (UInt64 × Bytes)
  outcomes : List Outcome

def DaemonCommand (cmd : Bytes) : Prop :=
  cmd ≠ [] ∧ carriageReturn ∉ cmd ∧ lineFeed ∉ cmd ∧ 0 ∉ cmd ∧ cmd.length ≤ 95

instance (cmd : Bytes) : Decidable (DaemonCommand cmd) := inferInstanceAs (Decidable (_ ∧ _))

/-- Every input that either end has tagged for the wire. -/
def World.tagged (w : World) : List Bytes :=
  (w.calls.map fun p => cmdMacInput p.1 p.2) ++
    (frames w.nano.trace).map fun f => rspMacInput f.1 f.2.1 f.2.2

/-- No command line verifies unless an end tagged its input. -/
def GenuineCommand (key : Key) (w : World) (line : Bytes) : Prop :=
  match verifyCommandFrame key line with
  | .error _ => True
  | .ok (c,t) => cmdMacInput c t ∈ w.tagged

def GenuineResponse (key : Key) (w : World) (line : Bytes) : Prop :=
  match verifyResponse key line with
  | .error _ => True
  | .ok (c,s,b) => rspMacInput c s b ∈ w.tagged

instance (key : Key) (w : World) (line : Bytes) : Decidable (GenuineCommand key w line) :=
  match h : verifyCommandFrame key line with
  | .error _ => .isTrue (by simp [GenuineCommand,h])
  | .ok (c,t) => decidable_of_iff (cmdMacInput c t ∈ w.tagged) (by simp [GenuineCommand,h])

instance (key : Key) (w : World) (line : Bytes) : Decidable (GenuineResponse key w line) :=
  match h : verifyResponse key line with
  | .error _ => .isTrue (by simp [GenuineResponse,h])
  | .ok (c,s,b) => decidable_of_iff (rspMacInput c s b ∈ w.tagged) (by simp [GenuineResponse,h])

inductive WorldAction where
  | send (counter : UInt64) (cmd : Bytes)
  | hear (line : Bytes)
  | giveUp
  | receive (line : Bytes) (lib : Library)
  | tick
  | powerCycle (lib : Library)

/-- Any line may reach either end at any time. The Nano takes lines while it is paired
under the shared key; a call may end without an answer at any time. -/
def World.step (key : Key) (w : World) : WorldAction → Option World
  | .send counter cmd =>
    if w.call = none ∧ counter ∉ w.calls.map Prod.fst ∧ DaemonCommand cmd ∧
        (advanceCounter counter).isOk then
      some { w with call := some ⟨counter,cmd,0,[]⟩, calls := w.calls ++ [(counter,cmd)] }
    else none
  | .hear line =>
    match w.call with
    | none => none
    | some k =>
      if GenuineResponse key w line then
        match responseStep key k.counter k.expectedSeq line with
        | .skip => some w
        | .progress text =>
          some { w with call := some { k with expectedSeq := k.expectedSeq + 1, progress := k.progress ++ [text] } }
        | .done body =>
          some { w with call := none, outcomes := w.outcomes ++ [⟨k.counter,k.cmd,k.progress,body⟩] }
        | .fail _ => some { w with call := none }
      else none
  | .giveUp => some { w with call := none }
  | .receive line lib =>
    if eeLoadKey w.nano.ee = some key ∧ GenuineCommand key w line then
      (w.nano.step (.receive line lib)).map fun nano => { w with nano := nano }
    else none
  | .tick => (w.nano.step .tick).map fun nano => { w with nano := nano }
  | .powerCycle lib => (w.nano.step (.powerCycle lib)).map fun nano => { w with nano := nano }

def World.start (e : Eeprom) : World := ⟨⟨e,[],[]⟩,none,[],[]⟩

/-! ### What a genuine line is -/

theorem genuine_command (key : Key) (w : World) (line : Bytes) (c : UInt64) (t : Bytes)
    (genuine : GenuineCommand key w line) (verified : verifyCommandFrame key line = .ok (c,t)) :
    (c,t) ∈ w.calls := by
  simp only [GenuineCommand,verified,World.tagged,List.mem_append,List.mem_map] at genuine
  rcases genuine with ⟨⟨d,u⟩,member,same⟩ | ⟨⟨d,s,b⟩,_,same⟩
  · obtain ⟨rfl,rfl⟩ := cmdMacInput_injective _ _ _ _ same
    exact member
  · exact absurd same.symm (cmd_ne_rsp _ _ _ _ _)

theorem genuine_response (key : Key) (w : World) (line : Bytes) (c : UInt64) (s : UInt32) (b : Bytes)
    (genuine : GenuineResponse key w line) (verified : verifyResponse key line = .ok (c,s,b)) :
    (c,s,b) ∈ frames w.nano.trace := by
  simp only [GenuineResponse,verified,World.tagged,List.mem_append,List.mem_map] at genuine
  rcases genuine with ⟨⟨d,u⟩,_,same⟩ | ⟨⟨d,r,a⟩,member,same⟩
  · exact absurd same (cmd_ne_rsp _ _ _ _ _)
  · obtain ⟨rfl,rfl,rfl⟩ := rspMacInput_injective _ _ _ _ _ _ same
    exact member

end R503
