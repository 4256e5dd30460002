import R503.DriverSessions
import R503.ToolRuns

/-! Runs of the daemon on the files of its host, and what can befall them: saves of the counter that fail, answers
that are lost or mangled, a port that is reopened, and power cuts of the Nano. -/
namespace R503.Fprint

open Text Host Firmware Fallible

structure DaemonCall where
  /-- The port is opened anew before the call, and whether `state.json` can be read then. -/
  reopened : Option Bool
  call : DriverCall
  lib : Library
  write : WriteIo
  /-- The effects the Nano gets done before a power cut. -/
  power : Option Nat
  /-- What is read of what the Nano sends. -/
  hears : Bytes → List Bytes

structure DaemonCall.Fine (t : DaemonCall) : Prop where
  readable : t.reopened ≠ some false
  write : t.write.Fine
  power : t.power = none
  lossless : ∀ stream, (t.hears stream).flatten = stream

def DaemonCall.done (t : DaemonCall) (effects : List Effect) : List Effect :=
  match t.power with
  | none => effects
  | some count => effects.take count

structure Service where
  auth : Option (Key × UInt64)
  site : Site

def returned : Except (Halt ε) α → Option (Except ε α)
  | .ok a => some (.ok a)
  | .error (.fails e) => some (.error e)
  | .error .never => none

section
variable (fromSlice : Bytes → Option UInt64) (report : Host.SensorError → SensorError)

/-- The counter of `apply_auth`, unless the load of `state.json` does not return. -/
def armedWith (readable : Bool) (files : HostFiles) : Option UInt64 :=
  (returned (stateLoadFrom fromSlice readable files)).map applyAuth

def Service.reopen (s : Service) (reopened : Option Bool) : Option Service :=
  match reopened,s.auth with
  | some readable,some (key,_) =>
    (armedWith fromSlice readable s.site.files).map fun counter => { s with auth := some (key,counter) }
  | _,_ => some s

/-- One call on an open port. A save that fails ends it before anything is sent, one that does not return ends the run. -/
def Service.call (s : Service) (t : DaemonCall) : Option Outcome × Service :=
  let nano (sent : Bytes) := t.done (loopRun (fun _ => t.lib) 0 s.site.ee [] sent)
  let outcome (saved : Bool) : Outcome :=
    let (texts,executed) := execute s.auth t.call.text saved fun sent => t.hears (serialOut (nano sent))
    (texts,t.call.reply (executed.mapError report))
  let ee := (nano (written s.auth t.call.text)).foldl Effect.apply s.site.ee
  match s.auth with
  | none => (some (outcome true),⟨none,⟨s.site.files,ee⟩⟩)
  | some (key,counter) =>
    match advanceCounter counter with
    | .error _ => (some (outcome true),s)
    | .ok next =>
      match stateSave t.write next s.site.files with
      | (files,.ok ()) => (some (outcome true),⟨some (key,next),⟨files,ee⟩⟩)
      | (files,.error (.fails _)) => (some (outcome false),⟨s.auth,⟨files,s.site.ee⟩⟩)
      | (files,.error .never) => (none,⟨s.auth,⟨files,s.site.ee⟩⟩)

def Service.serveOne (s : Service) (t : DaemonCall) : Option Outcome × Service :=
  match s.reopen fromSlice t.reopened with
  | none => (none,s)
  | some ready => ready.call report t

/-- Calls one after the other, as far as they return. A daemon that is killed leaves off after any of them, or
as one whose save or answer fails. -/
def Service.run (s : Service) : List DaemonCall → List Outcome × Service
  | [] => ([],s)
  | t :: calls =>
    match s.serveOne fromSlice report t with
    | (none,after) => ([],after)
    | (some outcome,after) =>
      let (outcomes,last) := after.run calls
      (outcome :: outcomes,last)

end

/-! ### The file of the counter -/

/-- Regular files, and a `state.json.tmp` that becomes a file the daemon loads. -/
def Neat (files : HostFiles) : Prop :=
  TidyWith (fun files => ∀ n, files .stateTmp = some (.node n) → n.mode &&& 0o777 = 0o600) files

section
variable {files left : HostFiles} {io : WriteIo} {n : UInt64}

theorem neat_same (a b : HostFiles) (same : a.Same b .stateTmp)
    (modes : ∀ n, a .stateTmp = some (.node n) → n.mode &&& 0o777 = 0o600) :
    ∀ n, b .stateTmp = some (.node n) → n.mode &&& 0o777 = 0o600 := fun n here =>
  modes n (same.entry.symm.trans here)

/-- What is written as `state.json.tmp` has the mode of a state file. -/
theorem Neat.mode (neat : Neat files) (content : Bytes) :
    (files.written .stateTmp 0o600 content).mode &&& 0o777 = 0o600 := by
  unfold Disk.written
  cases here : files.nodeAt .stateTmp with
  | none => exact (by decide : 0o600 &&& 0o777 = 0o600)
  | some n => exact neat.2 n (Disk.nodeAt_entry here)

theorem Neat.remove (neat : Neat files) (p : Path) : Neat (files.remove p) := by
  refine ⟨neat.1.remove p,fun n here => ?_⟩
  by_cases same : Path.stateTmp = p
  · rw [same,Disk.remove_self] at here
    cases here
  · rw [Disk.remove_other files same] at here
    exact neat.2 n here

theorem Neat.place {p : Path} (neat : Neat files) (uid mode : Nat) (content : Option Bytes) (notKey : p ≠ .keyTmp)
    (notState : p ≠ .stateTmp) : Neat (files.place p ⟨uid,mode,.file content⟩) := by
  refine ⟨neat.1.place _ rfl fun same => absurd same notKey,fun n here => ?_⟩
  rw [Disk.place_other _ notState.symm] at here
  exact neat.2 n here

theorem keeps_neat_stateSave (io : WriteIo) (n : UInt64) : Keeps Neat (stateSave io n) := by
  intro files neat
  have plain := neat.1.target (p := .stateTmp) (by decide)
  refine ⟨keeps_tidy_stateSave io n files neat.1,fun m here => ?_⟩
  by_cases replaces : Replaces io files .stateTmp .state
  · rw [stateSave,replaceFile_done plain replaces] at here
    have renamed : replaced files .stateTmp .state (stateText n) .stateTmp = none := Disk.rename_old ..
    cases renamed.symm.trans here
  · by_cases waits : Hangs io files .stateTmp
    · rw [stateSave,replaceFile_hangs waits] at here
      exact neat.2 m here
    · obtain ⟨left,e,failed,unreplaced⟩ := replaceFile_fails (stateText n) plain replaces waits
      rw [stateSave,failed] at here
      rcases unreplaced with rfl | ⟨_,text,rfl⟩
      · exact neat.2 m here
      · cases (Disk.place_self files .stateTmp _).symm.trans here
        exact neat.mode text

theorem toolsKeep_neat (tpm : Tpm) : ToolsKeep tpm Neat where
  saveKey write copy key := keeps_spared neat_same (keeps_tidy_saveKey write copy key)
    (spares_saveKey write copy key (by decide) (by decide))
  persist write _ _ _ blob _ := keeps_spared neat_same ((toolsKeep_tidy tpm).persist write _ _ _ blob ‹_›)
    (spares_persist write blob (by decide) (by decide) (by decide))
  deleteKey delete := keeps_spared neat_same (keeps_tidy_deleteKey delete)
    (spares_deleteKey delete (by decide) (by decide) (by decide))
  removeFile removed p member := by
    have own : p ∈ ownPaths ∧ Path.stateTmp ≠ p := by
      simp only [List.mem_cons,List.not_mem_nil,or_false] at member
      rcases member with rfl | rfl | rfl <;> decide
    exact keeps_spared neat_same (keeps_tidy_removeFile removed p) (spares_removeFile removed (by decide) own.1 own.2)
  stateSave := keeps_neat_stateSave
  touch := keeps_spared neat_same (toolsKeep_tidy tpm).touch (spares_touchMarker (by decide) (by decide))

variable {fromSlice : Bytes → Option UInt64}

theorem stateLoadFrom_same {a b : HostFiles} (readable : Bool) (same : a.Same b .state) :
    stateLoadFrom fromSlice readable b = stateLoadFrom fromSlice readable a := by
  rw [stateLoadFrom,stateLoadFrom,same.found]

/-- A counter that was saved is loaded. -/
theorem stateSave_loads (reads : ∀ n, fromSlice (stateText n) = some n) (neat : Neat files)
    (saved : stateSave io n files = (left,.ok ())) : stateLoadFrom fromSlice true left = .ok (some n) := by
  obtain ⟨_,rfl⟩ := replaceFile_ok (neat.1.target (by decide)) saved
  have here : replaced files .stateTmp .state (stateText n) .state =
      some (.node (files.written .stateTmp 0o600 (stateText n))) := replaced_target (by decide)
  have text := written_body 0o600 (stateText n) (neat.1.file (p := .stateTmp) (by decide))
  have mode := neat.mode (stateText n)
  rw [stateLoadFrom,Disk.found_node here]
  simp only [text,Disk.Body.read,reads,stateLoad,mode]
  rfl

/-- A save that does not succeed leaves the old counter. -/
theorem stateSave_same (io : WriteIo) (n : UInt64) (tidy : Tidy files) (failed : (stateSave io n files).2 ≠ .ok ()) :
    files.Same (stateSave io n files).1 .state :=
  same_replaceFile tidy.apart (tidy.target (by decide)) failed (by decide) (by decide) (by decide)

end

section
variable (fromSlice : Bytes → Option UInt64) (report : Host.SensorError → SensorError) {s : Service}

theorem neat_call (neat : Neat s.site.files) (t : DaemonCall) : Neat (s.call report t).2.site.files := by
  obtain ⟨auth,site⟩ := s
  unfold Service.call
  dsimp only
  split
  · exact neat
  next key counter _ =>
    split
    · exact neat
    next next _ =>
      have after := keeps_neat_stateSave t.write next site.files neat
      split
      next ran => rwa [ran] at after
      next ran => rwa [ran] at after
      next ran => rwa [ran] at after

theorem neat_serveOne (neat : Neat s.site.files) (t : DaemonCall) : Neat (s.serveOne fromSlice report t).2.site.files := by
  unfold Service.serveOne
  split
  · exact neat
  next ready opened =>
    refine neat_call report ?_ t
    unfold Service.reopen at opened
    split at opened
    · obtain ⟨_,_,rfl⟩ := Option.map_eq_some_iff.mp opened
      exact neat
    · obtain rfl := Option.some.inj opened
      exact neat

theorem neat_run (neat : Neat s.site.files) (calls : List DaemonCall) : Neat (s.run fromSlice report calls).2.site.files := by
  induction calls generalizing s with
  | nil => exact neat
  | cons t calls ih =>
    have after := neat_serveOne fromSlice report neat t
    unfold Service.run
    split
    next took => rwa [took] at after
    next took =>
      rw [took] at after
      exact ih after

end

/-! ### What a run keeps -/

/-- The driver has the key of the Nano. While its counter is trusted, that is the one on disk, and the Nano takes it. -/
structure Armed (tpm : Tpm) (fromSlice : Bytes → Option UInt64) (trusted : Bool) (key : Key) (counter : UInt64)
    (s : Service) : Prop where
  neat : Neat s.site.files
  loads : Loads tpm s.site.files key
  held : eeLoadKey s.site.ee = some key
  auth : s.auth = some (key,counter)
  saved : trusted = true → stateLoadFrom fromSlice true s.site.files = .ok (some counter)
  newer : trusted = true → eeLoadCounter s.site.ee < counter

theorem DaemonCall.done_idle (t : DaemonCall) {effects : List Effect} (idle : ∀ x ∈ effects, Idle x) (e : Eeprom) :
    (t.done effects).foldl Effect.apply e = e := by
  unfold DaemonCall.done
  split
  · exact apply_idle idle e
  · exact apply_idle (fun x member => idle x (List.mem_of_mem_take member)) e

/-- Whenever its power is cut, the Nano has its old counter or that of the frame. -/
theorem DaemonCall.done_frame (t : DaemonCall) {e : Eeprom} {key : Key} (loaded : eeLoadKey e = some key) (counter : UInt64) :
    (t.done (loopRun (fun _ => t.lib) 0 e [] (encodeCommand key counter t.call.text ++ [lineFeed]))).foldl
        Effect.apply e = e ∨
      eeLoadCounter e < counter ∧
        (t.done (loopRun (fun _ => t.lib) 0 e [] (encodeCommand key counter t.call.text ++ [lineFeed]))).foldl
          Effect.apply e = eeSaveCounter e counter := by
  rw [frame_line]
  rcases framed_effects t.lib t.call counter loaded with idle | ⟨fresh,rest,same,idle⟩
  · exact .inl (t.done_idle idle e)
  · rw [same]
    unfold DaemonCall.done
    split
    · exact .inr ⟨fresh,apply_idle idle _⟩
    next count _ =>
      cases count with
      | zero => exact .inl rfl
      | succ count => exact .inr ⟨fresh,apply_idle (fun x member => idle x (List.mem_of_mem_take member)) _⟩

theorem loads_stateSave {files : HostFiles} (tpm : Tpm) (io : WriteIo) (n : UInt64) (key : Key) (tidy : Tidy files) :
    Loads tpm (stateSave io n files).1 key ↔ Loads tpm files key :=
  have same {p : Path} (own : p ∈ ownPaths) (notTmp : p ≠ .stateTmp) (notState : p ≠ .state) :=
    (spares_stateSave io n own notTmp notState files tidy.apart).2
  loads_same tpm key (same (by decide) (by decide) (by decide)) (same (by decide) (by decide) (by decide))
    (same (by decide) (by decide) (by decide))

section
variable {tpm : Tpm} {fromSlice : Bytes → Option UInt64} (report : Host.SensorError → SensorError)
  {trusted : Bool} {key : Key} {counter : UInt64} {s : Service}

theorem Armed.weaken {still : Bool} (armed : Armed tpm fromSlice trusted key counter s)
    (less : still = true → trusted = true) : Armed tpm fromSlice still key counter s :=
  { armed with saved := fun held => armed.saved (less held), newer := fun held => armed.newer (less held) }

/-- A port that is opened anew takes the counter from the disk, if it can be read. -/
theorem Armed.reopen (armed : Armed tpm fromSlice trusted key counter s) (reopened : Option Bool) (ready : Service)
    (opened : s.reopen fromSlice reopened = some ready) :
    ∃ now, Armed tpm fromSlice (trusted && reopened != some false) key now ready ∧
      (trusted = true → reopened ≠ some false → now = counter) := by
  obtain ⟨auth,site⟩ := s
  obtain rfl := armed.auth
  cases reopened with
  | none =>
    obtain rfl := Option.some.inj opened
    exact ⟨counter,armed.weaken fun held => (Bool.and_eq_true_iff.mp held).1,fun _ _ => rfl⟩
  | some readable =>
    obtain ⟨now,given,rfl⟩ := Option.map_eq_some_iff.mp opened
    have taken (held : trusted = true) (able : readable = true) : now = counter := by
      subst able
      rw [armedWith,armed.saved held] at given
      exact (Option.some.inj given).symm
    refine ⟨now,⟨armed.neat,armed.loads,armed.held,rfl,fun held => ?_,fun held => ?_⟩,fun held able => ?_⟩
    all_goals simp only [Bool.and_eq_true,bne_iff_ne,ne_eq,Option.some.injEq,Bool.not_eq_false] at *
    · exact taken held.1 held.2 ▸ armed.saved held.1
    · exact taken held.1 held.2 ▸ armed.newer held.1
    · exact taken held able

variable (reads : ∀ n, fromSlice (stateText n) = some n)
include reads

theorem Armed.call (armed : Armed tpm fromSlice trusted key counter s) (t : DaemonCall) :
    ∃ next, next.toNat ≤ counter.toNat + 1 ∧ Armed tpm fromSlice trusted key next (s.call report t).2 := by
  obtain ⟨auth,site⟩ := s
  obtain rfl := armed.auth
  unfold Service.call
  dsimp only
  cases advanced : advanceCounter counter with
  | error e => exact ⟨counter,Nat.le_succ _,armed⟩
  | ok next =>
    have tidy := armed.neat.1
    have neat := keeps_neat_stateSave t.write next site.files armed.neat
    have loads := (loads_stateSave tpm t.write next key tidy).mpr armed.loads
    have kept := stateSave_same t.write next tidy
    dsimp only
    cases saves : stateSave t.write next site.files with
    | mk files result =>
      rw [saves] at neat loads kept
      cases result with
      | error e =>
        have saved (held : trusted = true) := (stateLoadFrom_same true (kept (by simp))).trans (armed.saved held)
        refine ⟨counter,Nat.le_succ _,?_⟩
        cases e with
        | fails | never => exact ⟨neat,loads,armed.held,rfl,saved,armed.newer⟩
      | ok =>
        obtain ⟨same,more⟩ := advanceCounter_ok _ _ advanced
        have above := lt_next counter next advanced
        have written : written (some (key,counter)) t.call.text = encodeCommand key counter t.call.text ++ [lineFeed] := by
          rw [written,advanced]
        have loaded := stateSave_loads reads armed.neat saves
        refine ⟨next,by omega,?_⟩
        dsimp only
        rw [written]
        rcases t.done_frame armed.held counter with still | ⟨fresh,moved⟩
        · rw [still]
          exact ⟨neat,loads,armed.held,rfl,fun _ => loaded,fun held => (armed.newer held).trans above⟩
        · rw [moved]
          refine ⟨neat,loads,by simpa using armed.held,rfl,fun _ => loaded,fun _ => ?_⟩
          rw [eeLoadCounter_saveCounter _ counter fresh]
          exact above

theorem Armed.serveOne (armed : Armed tpm fromSlice trusted key counter s) (t : DaemonCall) :
    ∃ next, Armed tpm fromSlice (trusted && t.reopened != some false) key next (s.serveOne fromSlice report t).2 := by
  unfold Service.serveOne
  cases opened : s.reopen fromSlice t.reopened with
  | none => exact ⟨counter,armed.weaken fun held => (Bool.and_eq_true_iff.mp held).1⟩
  | some ready =>
    obtain ⟨now,ready,_⟩ := armed.reopen t.reopened ready opened
    obtain ⟨next,_,after⟩ := ready.call report reads t
    exact ⟨next,after⟩

/-- Whatever befalls it, a run leaves the keys, and a counter that fits if it could read its own. -/
theorem Armed.run (armed : Armed tpm fromSlice trusted key counter s) (calls : List DaemonCall) :
    ∃ now, Armed tpm fromSlice (trusted && calls.all fun t => t.reopened != some false) key now
      (s.run fromSlice report calls).2 := by
  induction calls generalizing s trusted counter with
  | nil => exact ⟨counter,armed.weaken fun held => (Bool.and_eq_true_iff.mp held).1⟩
  | cons t calls ih =>
    obtain ⟨next,after⟩ := armed.serveOne report reads t
    unfold Service.run
    rw [List.all_cons,← Bool.and_assoc]
    cases took : s.serveOne fromSlice report t with
    | mk outcome left =>
      rw [took] at after
      cases outcome with
      | none => exact ⟨next,after.weaken fun held => (Bool.and_eq_true_iff.mp held).1⟩
      | some outcome => exact ih after

/-! ### Runs that nothing befalls -/

omit reads

include reads

end

/-! ### Runs without a key -/

section
variable (fromSlice : Bytes → Option UInt64) (report : Host.SensorError → SensorError) {w : Site}

theorem Service.serveOne_plain (unpaired : eeIsPaired w.ee = false) (t : DaemonCall) :
    (Service.serveOne fromSlice report ⟨none,w⟩ t).2 = ⟨none,w⟩ ∧
      (t.Fine → (Service.serveOne fromSlice report ⟨none,w⟩ t).1 = some (t.call.outcome t.lib)) ∧
      (Service.serveOne fromSlice report ⟨none,w⟩ t).1 ≠ none := by
  have opened : Service.reopen fromSlice ⟨none,w⟩ t.reopened = some ⟨none,w⟩ := by cases t.reopened <;> rfl
  rw [Service.serveOne,opened]
  refine ⟨?_,fun fine => ?_,by simp [Service.call]⟩
  · simp only [Service.call,written,text_line,t.done_idle (plain_idle t.lib t.call unpaired)]
  · have same := plain_call report none w.ee ⟨t.call,t.lib,⟨t.hears,fine.lossless⟩⟩ unpaired
    simp only [Service.call,DaemonCall.done,fine.power]
    exact congrArg some (congrArg Prod.fst same)

theorem Service.run_plain (unpaired : eeIsPaired w.ee = false) (calls : List DaemonCall) :
    (Service.run fromSlice report ⟨none,w⟩ calls).2 = ⟨none,w⟩ ∧
      ((∀ t ∈ calls, t.Fine) →
        (Service.run fromSlice report ⟨none,w⟩ calls).1 = calls.map fun t => t.call.outcome t.lib) := by
  induction calls with
  | nil => exact ⟨rfl,fun _ => rfl⟩
  | cons t calls ih =>
    obtain ⟨same,meant,returns⟩ := Service.serveOne_plain fromSlice report unpaired t
    unfold Service.run
    cases took : Service.serveOne fromSlice report ⟨none,w⟩ t with
    | mk given left =>
      rw [took] at same meant returns
      obtain rfl : left = _ := same
      cases given with
      | none => exact absurd rfl returns
      | some outcome =>
        refine ⟨ih.1,fun fine => ?_⟩
        obtain ⟨here,later⟩ := List.forall_mem_cons.mp fine
        rw [Option.some.inj (meant here)]
        exact congrArg (List.cons _) (ih.2 later)

end

end R503.Fprint
