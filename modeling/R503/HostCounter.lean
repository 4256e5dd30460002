import R503.HostSession

/-! The daemon's command counter on disk and in the open driver: state.rs, `apply_auth` and
the steps of `execute_framed` up to the write on the wire. -/
namespace R503.Host

open Text

/-- `state.json` as `load` finds it: its mode bits, and what the JSON parser makes of it. -/
structure StateFile where
  mode : Nat
  nextCmdCounter : Option UInt64
  deriving DecidableEq

inductive StateError where
  | io
  | insecureMode (mode : Nat)
  | parsing
  deriving DecidableEq

def freshCounter : UInt64 := 1

/-- `state::load`; `readable` is whether stat and read succeed. -/
def stateLoad (readable : Bool) : Option StateFile → Except StateError (Option UInt64)
  | none => .ok none
  | some f =>
    if ¬ readable then .error .io
    else if f.mode &&& 0o777 ≠ 0o600 then .error (.insecureMode (f.mode &&& 0o777))
    else match f.nextCmdCounter with
      | none => .error .parsing
      | some n => .ok (some n)

def savedState (n : UInt64) : StateFile := ⟨0o600,some n⟩

/-- The counter `apply_auth` arms the driver with: `load().ok().flatten()`, or the fresh one. -/
def applyAuth (loaded : Except StateError (Option UInt64)) : UInt64 :=
  match loaded with
  | .ok (some n) => n
  | _ => freshCounter

inductive LoadFault where
  | mode (bits : Nat)
  | io
  | garbled
  deriving DecidableEq

def attemptLoad (disk : UInt64) : Option LoadFault → Except StateError (Option UInt64)
  | none => stateLoad true (some (savedState disk))
  | some (.mode bits) => stateLoad true (some ⟨bits,some disk⟩)
  | some .io => stateLoad false (some (savedState disk))
  | some .garbled => stateLoad true (some ⟨0o600,none⟩)

/-- Where a call of `execute_framed` stands before it listens. -/
inductive Stage where
  | advanced
  | persisted
  | assigned
  deriving DecidableEq

structure InFlight where
  counter : UInt64
  next : UInt64
  cmd : Bytes
  stage : Stage
  deriving DecidableEq

structure Daemon where
  /-- The counter in `state.json`. -/
  disk : UInt64
  /-- `client_counter` of the open driver. -/
  client : Option UInt64
  inFlight : Option InFlight
  /-- Counter and command of every frame written to the wire. -/
  sent : List (UInt64 × Bytes)
  deriving DecidableEq

inductive DaemonAction where
  /-- The sensor is (re)opened, by a restart or by the worker, and `apply_auth` runs. -/
  | reopen (fault : Option LoadFault)
  | crash
  | begin (cmd : Bytes)
  | persist (saved : Bool)
  | assign
  | transmit

def Daemon.step (d : Daemon) : DaemonAction → Option Daemon
  | .reopen fault => some { d with client := some (applyAuth (attemptLoad d.disk fault)), inFlight := none }
  | .crash => some { d with client := none, inFlight := none }
  | .begin cmd =>
    match d.client,d.inFlight with
    | some counter,none =>
      match advanceCounter counter with
      | .error _ => some d
      | .ok next => some { d with inFlight := some ⟨counter,next,cmd,.advanced⟩ }
    | _,_ => none
  | .persist saved =>
    match d.inFlight with
    | some ⟨counter,next,cmd,.advanced⟩ =>
      if saved then some { d with disk := next, inFlight := some ⟨counter,next,cmd,.persisted⟩ }
      else some { d with inFlight := none }
    | _ => none
  | .assign =>
    match d.inFlight with
    | some ⟨counter,next,cmd,.persisted⟩ =>
      some { d with client := some next, inFlight := some ⟨counter,next,cmd,.assigned⟩ }
    | _ => none
  | .transmit =>
    match d.inFlight with
    | some ⟨counter,_,cmd,.assigned⟩ =>
      some { d with inFlight := none, sent := d.sent ++ [(counter,cmd)] }
    | _ => none

def wireFrame (key : Key) (frame : UInt64 × Bytes) : Bytes := encodeCommand key frame.1 frame.2

def Daemon.saved (n : UInt64) : Daemon := ⟨n,none,none,[]⟩

/-! ### The order of counters while loads succeed -/

def Harmless : Option LoadFault → Prop
  | none => True
  | some (.mode bits) => bits &&& 0o777 = 0o600
  | some .io | some .garbled => False

theorem attemptLoad_harmless (disk : UInt64) (fault : Option LoadFault) (harmless : Harmless fault) :
    attemptLoad disk fault = .ok (some disk) := by
  cases fault with
  | none => simp [attemptLoad,stateLoad,savedState]
  | some fault =>
    cases fault with
    | mode bits =>
      have same : bits &&& 0o777 = 0o600 := harmless
      simp [attemptLoad,stateLoad,same]
    | io => cases harmless
    | garbled => cases harmless

theorem attemptLoad_harmful (disk : UInt64) (fault : Option LoadFault) (harmful : ¬ Harmless fault) :
    ∃ e, attemptLoad disk fault = .error e := by
  cases fault with
  | none => exact absurd trivial harmful
  | some fault =>
    cases fault with
    | mode bits =>
      refine ⟨.insecureMode (bits &&& 0o777),?_⟩
      have differs : bits &&& 0o777 ≠ 0o600 := harmful
      rw [attemptLoad,stateLoad,if_neg (by simp),if_pos differs]
    | io => exact ⟨.io,rfl⟩
    | garbled => exact ⟨.parsing,rfl⟩

theorem advanceCounter_ok (counter next : UInt64) (ok : advanceCounter counter = .ok next) :
    counter < counterCeiling ∧ next.toNat = counter.toNat + 1 := by
  unfold advanceCounter at ok
  split at ok
  · cases ok
  next below =>
    obtain rfl := Except.ok.inj ok
    have small : counter < counterCeiling := not_le.mp below
    refine ⟨small,?_⟩
    have := UInt64.lt_iff_toNat_lt.mp small
    have top : counterCeiling.toNat < 2 ^ 64 - 1 := by decide
    rw [UInt64.toNat_add]
    exact Nat.mod_eq_of_lt (by simp; omega)

theorem lt_next (counter next : UInt64) (ok : advanceCounter counter = .ok next) : counter < next := by
  have := (advanceCounter_ok counter next ok).2
  rw [UInt64.lt_iff_toNat_lt]
  omega

/-- What a call in progress owes to the counters it read and wrote. -/
def InFlight.Fits (f : InFlight) (d : Daemon) : Prop :=
  advanceCounter f.counter = .ok f.next ∧
    match f.stage with
    | .advanced => d.client = some f.counter ∧ d.disk = f.counter
    | .persisted => d.disk = f.next
    | .assigned => d.client = some f.next ∧ d.disk = f.next

def DaemonAction.Loads : DaemonAction → Prop
  | .reopen fault => Harmless fault
  | _ => True

def DaemonAction.persists : DaemonAction → Bool
  | .persist saved => saved
  | _ => false

/-- The driver's counter is the one on disk but for a call in progress. -/
structure Tracks (d : Daemon) : Prop where
  client : d.inFlight = none → ∀ c, d.client = some c → c = d.disk
  fits : ∀ f, d.inFlight = some f → f.Fits d
  stopped : d.client = none → d.inFlight = none

theorem tracks_saved (n : UInt64) : Tracks (Daemon.saved n) where
  client _ _ none := by cases none
  fits _ none := by cases none
  stopped _ := rfl

/-- Between calls nothing is owed. -/
theorem tracks_idle (disk : UInt64) (client : Option UInt64) (sent : List (UInt64 × Bytes))
    (same : ∀ c, client = some c → c = disk) : Tracks ⟨disk,client,none,sent⟩ where
  client _ := same
  fits _ none := by cases none
  stopped _ := rfl

/-- While loads succeed each step keeps track, and moves the disk by one or not at all. -/
theorem tracks_step (d t : Daemon) (a : DaemonAction) (tracks : Tracks d) (loads : a.Loads)
    (moved : d.step a = some t) :
    Tracks t ∧ t.disk.toNat = d.disk.toNat + a.persists.toNat := by
  cases a with
  | reopen fault =>
    obtain rfl := Option.some.inj moved
    rw [attemptLoad_harmless d.disk fault loads]
    exact ⟨tracks_idle d.disk (some d.disk) d.sent fun c same => (Option.some.inj same).symm,rfl⟩
  | crash =>
    obtain rfl := Option.some.inj moved
    exact ⟨tracks_idle d.disk none d.sent fun c none => (by cases none),rfl⟩
  | begin cmd =>
    simp only [Daemon.step] at moved
    split at moved
    next counter client idle =>
      split at moved
      · obtain rfl := Option.some.inj moved
        exact ⟨tracks,rfl⟩
      next next ok =>
        obtain rfl := Option.some.inj moved
        refine ⟨⟨fun none => (by cases none),fun f here => ?_,fun none => ?_⟩,rfl⟩
        · obtain rfl := Option.some.inj here
          exact ⟨ok,client,(tracks.client idle counter client).symm⟩
        · dsimp only at none
          rw [client] at none
          cases none
    · cases moved
  | persist saved =>
    simp only [Daemon.step] at moved
    split at moved
    next counter next cmd flight =>
      obtain ⟨ok,client,same⟩ := tracks.fits _ flight
      dsimp only at ok client same
      split at moved
      next done =>
        obtain rfl := Option.some.inj moved
        refine ⟨⟨fun none => (by cases none),fun f here => ?_,fun none => ?_⟩,?_⟩
        · obtain rfl := Option.some.inj here
          exact ⟨ok,rfl⟩
        · dsimp only at none
          rw [client] at none
          cases none
        · rw [(advanceCounter_ok counter next ok).2,same,done]
          rfl
      next failed =>
        obtain rfl := Option.some.inj moved
        refine ⟨tracks_idle d.disk d.client d.sent fun c here => ?_,?_⟩
        · exact (Option.some.inj (client.symm.trans here)).symm.trans same.symm
        · rw [eq_false_of_ne_true failed]
          rfl
    · cases moved
  | assign =>
    simp only [Daemon.step] at moved
    split at moved
    next counter next cmd flight =>
      obtain rfl := Option.some.inj moved
      obtain ⟨ok,same⟩ := tracks.fits _ flight
      refine ⟨⟨fun none => (by cases none),fun f here => ?_,fun none => (by cases none)⟩,rfl⟩
      obtain rfl := Option.some.inj here
      exact ⟨ok,rfl,same⟩
    · cases moved
  | transmit =>
    simp only [Daemon.step] at moved
    split at moved
    next counter next cmd flight =>
      obtain rfl := Option.some.inj moved
      obtain ⟨_,client,same⟩ := tracks.fits _ flight
      refine ⟨tracks_idle d.disk d.client (d.sent ++ [(counter,cmd)]) fun c here => ?_,rfl⟩
      exact (Option.some.inj (client.symm.trans here)).symm.trans same.symm
    · cases moved

/-- Every frame was sent under a smaller counter than any still to be used. -/
structure Ordered (d : Daemon) : Prop extends Tracks d where
  increasing : d.sent.Pairwise (·.1 < ·.1)
  belowDisk : ∀ p ∈ d.sent, p.1 < d.disk
  belowFlight : ∀ f, d.inFlight = some f → ∀ p ∈ d.sent, p.1 < f.counter

theorem ordered_saved (n : UInt64) : Ordered (Daemon.saved n) where
  toTracks := tracks_saved n
  increasing := .nil
  belowDisk _ none := by cases none
  belowFlight _ none := by cases none

structure StepFrames (d t : Daemon) (a : DaemonAction) : Prop where
  sent : t.sent = d.sent ∨ ∃ f, d.inFlight = some f ∧ f.stage = .assigned ∧
    t.sent = d.sent ++ [(f.counter,f.cmd)]
  flight : ∀ g, t.inFlight = some g → t.sent = d.sent ∧
    ((∃ f, d.inFlight = some f ∧ f.counter = g.counter ∧ f.cmd = g.cmd) ∨
      d.inFlight = none ∧ d.client = some g.counter ∧ a = .begin g.cmd)

theorem daemon_step_frames (d t : Daemon) (a : DaemonAction) (moved : d.step a = some t) :
    StepFrames d t a := by
  cases a with
  | reopen fault =>
    obtain rfl := Option.some.inj moved
    exact ⟨Or.inl rfl,fun g none => (by cases none)⟩
  | crash =>
    obtain rfl := Option.some.inj moved
    exact ⟨Or.inl rfl,fun g none => (by cases none)⟩
  | begin cmd =>
    simp only [Daemon.step] at moved
    split at moved
    next counter client idle =>
      split at moved <;> obtain rfl := Option.some.inj moved
      · exact ⟨Or.inl rfl,fun g here => ⟨rfl,Or.inl ⟨g,here,rfl,rfl⟩⟩⟩
      · refine ⟨Or.inl rfl,fun g here => ⟨rfl,Or.inr ?_⟩⟩
        obtain rfl := Option.some.inj here
        exact ⟨idle,client,rfl⟩
    · cases moved
  | persist saved =>
    simp only [Daemon.step] at moved
    split at moved
    next counter next cmd flight =>
      split at moved <;> obtain rfl := Option.some.inj moved
      · refine ⟨Or.inl rfl,fun g here => ⟨rfl,Or.inl ?_⟩⟩
        obtain rfl := Option.some.inj here
        exact ⟨_,flight,rfl,rfl⟩
      · exact ⟨Or.inl rfl,fun g none => (by cases none)⟩
    · cases moved
  | assign =>
    simp only [Daemon.step] at moved
    split at moved
    next counter next cmd flight =>
      obtain rfl := Option.some.inj moved
      refine ⟨Or.inl rfl,fun g here => ⟨rfl,Or.inl ?_⟩⟩
      obtain rfl := Option.some.inj here
      exact ⟨_,flight,rfl,rfl⟩
    · cases moved
  | transmit =>
    simp only [Daemon.step] at moved
    split at moved
    next counter next cmd flight =>
      obtain rfl := Option.some.inj moved
      exact ⟨Or.inr ⟨_,flight,rfl,rfl⟩,fun g none => (by cases none)⟩
    · cases moved

/-- While loads succeed each step keeps the order and never takes the saved counter back. -/
theorem ordered_step (d t : Daemon) (a : DaemonAction) (ordered : Ordered d) (loads : a.Loads)
    (moved : d.step a = some t) : Ordered t ∧ d.disk ≤ t.disk := by
  obtain ⟨tracks,disk⟩ := tracks_step d t a ordered.toTracks loads moved
  have more : d.disk ≤ t.disk := UInt64.le_iff_toNat_le.mpr (by omega)
  obtain ⟨sent,flight⟩ := daemon_step_frames d t a moved
  refine ⟨⟨tracks,?_,fun p member => ?_,fun g here p member => ?_⟩,more⟩
  · rcases sent with same | ⟨f,here,_,appended⟩
    · exact same ▸ ordered.increasing
    · rw [appended,List.pairwise_append]
      refine ⟨ordered.increasing,List.pairwise_singleton _ _,fun p member q last => ?_⟩
      obtain rfl := List.mem_singleton.mp last
      exact ordered.belowFlight f here p member
  · rcases sent with same | ⟨f,here,assigned,appended⟩
    · exact lt_of_lt_of_le (ordered.belowDisk p (same ▸ member)) more
    · rcases List.mem_append.mp (appended ▸ member) with before | last
      · exact lt_of_lt_of_le (ordered.belowDisk p before) more
      · obtain rfl := List.mem_singleton.mp last
        have fits := ordered.fits f here
        rw [InFlight.Fits,assigned] at fits
        exact lt_of_lt_of_le (fits.2.2 ▸ lt_next f.counter f.next fits.1) more
  · obtain ⟨same,before⟩ := flight g here
    rw [same] at member
    rcases before with ⟨f,there,counter,_⟩ | ⟨idle,client,_⟩
    · exact counter ▸ ordered.belowFlight f there p member
    · exact ordered.client idle g.counter client ▸ ordered.belowDisk p member

/-! ### Runs in which a load fails -/

def Daemon.Refuses (d : Daemon) : Prop :=
  ∀ cmd t, d.step (.begin cmd) = some t → t.inFlight = none

/-- A load that fails makes the host refuse to send, and no step takes the saved counter back. -/
def LoadGuard (d : Daemon) (a : DaemonAction) (t : Daemon) : Prop :=
  d.disk ≤ t.disk ∧ (¬ a.Loads → t.Refuses)

/-- The counters of the emitted frames increase and every step keeps the load guard. -/
def NoReuse (n : UInt64) (actions : List DaemonAction) (t : Daemon) : Prop :=
  t.sent.Pairwise (·.1 < ·.1) ∧ Transition.Along Daemon.step LoadGuard (Daemon.saved n) actions

theorem applyAuth_error (e : StateError) : applyAuth (.error e) = freshCounter := rfl

/-- After a failed load the driver is armed with the fresh counter, below the ceiling. -/
theorem reopen_harmful (d t : Daemon) (fault : Option LoadFault) (harmful : ¬ Harmless fault)
    (moved : d.step (.reopen fault) = some t) : ¬ t.Refuses := by
  obtain ⟨e,failed⟩ := attemptLoad_harmful d.disk fault harmful
  obtain rfl := Option.some.inj moved
  rw [failed,applyAuth_error]
  intro refuses
  have started := refuses [] _ rfl
  cases started

/-- A run in which every step keeps the load guard has no failing load. -/
theorem loads_of_guarded (d t : Daemon) (actions : List DaemonAction)
    (ran : Transition.run Daemon.step d actions = some t)
    (guarded : Transition.Along Daemon.step LoadGuard d actions) : ∀ a ∈ actions, a.Loads := by
  induction actions generalizing d with
  | nil => simp
  | cons a actions ih =>
    obtain ⟨u,moved,rest⟩ := (Transition.run_cons Daemon.step d t a actions).mp ran
    obtain ⟨⟨_,refuses⟩,later⟩ := guarded u moved
    refine List.forall_mem_cons.mpr ⟨?_,ih u rest later⟩
    by_contra fails
    cases a with
    | reopen fault => exact reopen_harmful d u fault fails moved (refuses fails)
    | crash | begin | persist | assign | transmit => exact fails trivial

/-- Counters are not reused exactly in the runs whose loads all succeed. -/
theorem no_reuse_iff_loads (n : UInt64) (actions : List DaemonAction) (t : Daemon)
    (ran : Transition.run Daemon.step (Daemon.saved n) actions = some t) :
    NoReuse n actions t ↔ ∀ a ∈ actions, a.Loads := by
  constructor
  · rintro ⟨_,guarded⟩
    exact loads_of_guarded _ t actions ran guarded
  · intro loads
    have ordered := Transition.run_invariant Ordered DaemonAction.Loads
      (fun d a u ordered load moved => (ordered_step d u a ordered load moved).1)
      (Daemon.saved n) t actions (ordered_saved n) loads ran
    refine ⟨ordered.increasing,Transition.along Ordered LoadGuard DaemonAction.Loads _ actions ?_
      (ordered_saved n) loads⟩
    intro d a u good load moved
    have kept := ordered_step d u a good load moved
    exact ⟨kept.1,kept.2,fun fails => absurd load fails⟩

def sendActions (cmd : Bytes) : List DaemonAction := [.begin cmd,.persist true,.assign,.transmit]

/-- A command is sent, the daemon dies between the save and the send of the next one, opens the
state again and sends another. -/
def resumedRun : List DaemonAction :=
  .reopen none :: sendActions (ascii "count") ++ [.begin (ascii "info"),.persist true,.crash,.reopen none] ++
    sendActions (ascii "verify")

theorem no_reuse_resumed : NoReuse 7 resumedRun ⟨10,some 10,none,[(7,ascii "count"),(9,ascii "verify")]⟩ :=
  (no_reuse_iff_loads 7 _ _ (by decide)).mpr (by simp [resumedRun,sendActions,DaemonAction.Loads,Harmless])

/-- Two commands, a reopen that finds the file at mode 0644, and a third command. -/
def looseModeRun : List DaemonAction :=
  .reopen none :: sendActions (ascii "count") ++ sendActions (ascii "count") ++
    .reopen (some (.mode 0o644)) :: sendActions (ascii "verify")

theorem loose_mode_reuses_counter :
    ∃ t, Transition.run Daemon.step (Daemon.saved 1) looseModeRun = some t ∧
      t.sent.map (·.1) = [1,2,1] ∧ t.disk = 2 ∧ ¬ NoReuse 1 looseModeRun t := by
  refine ⟨⟨2,some 2,none,[(1,ascii "count"),(2,ascii "count"),(1,ascii "verify")]⟩,by decide,
    by decide,rfl,?_⟩
  rintro ⟨increasing,_⟩
  exact absurd increasing (by decide)

end R503.Host
