import R503.DeviceInvariant

/-! Whose rows a client can change: every write to the registry is made in a call whose client was
authorised for the row's user, there or in the claim that the call relied on. -/
namespace R503.Fprint

open Text Transition

def MayActAs (uid : UInt32) (lookup : CallerLookup) (polkit : Except FprintError Bool) (user : Bytes) : Prop :=
  lookup = .ok (uid,some user) ∨ uid = 0 ∨ polkit = .ok true

theorem authorizeUsername_ok {sender : Option Bytes} {lookup : CallerLookup} {polkit : Except FprintError Bool}
    {requested user : Bytes} (granted : authorizeUsername sender lookup polkit requested = .ok user) :
    ∃ uid name, lookup = .ok (uid,name) ∧ MayActAs uid lookup polkit user := by
  unfold authorizeUsername at granted
  split at granted
  · cases granted
  next uid name resolved =>
    have found : lookup = .ok (uid,some name) := by
      unfold resolveCaller at resolved
      split at resolved
      any_goals cases resolved
      split at resolved
      · cases resolved
      · cases resolved
        rfl
    refine ⟨uid,some name,found,?_⟩
    split at granted
    · obtain rfl := Except.ok.inj granted
      exact .inl found
    split at granted
    next root => exact .inr (.inl root)
    next =>
      split at granted
      · cases granted
      · exact .inr (.inr rfl)
      · cases granted

theorem Stage.user_of_writing {stage : Stage} {user finger : Bytes} (writes : stage.writing = some (user,finger)) :
    stage.user = some user := by
  unfold Stage.writing at writes
  split at writes
  · obtain ⟨rfl,_⟩ := Prod.mk.inj (Option.some.inj writes)
    rfl
  · obtain ⟨_,_,same⟩ := Option.map_eq_some_iff.mp writes
    obtain ⟨rfl,_⟩ := Prod.mk.inj same
    rfl
  · obtain ⟨rfl,_⟩ := Prod.mk.inj (Option.some.inj writes)
    rfl
  · cases writes

section
variable (boot : World) (uidOf : Bytes → UInt32) (t : Tid) (client user : Bytes)

def Authorizes (method : Bytes → Method) (w : World) (a : Action) : Prop :=
  ∃ lookup polkit requested, a = .step t (.authorized lookup polkit) ∧ (w.threads t).sender = some client ∧
    (w.threads t).stage = .entry (method requested) ∧
    authorizeUsername (some client) lookup polkit requested = .ok user ∧ MayActAs (uidOf client) lookup polkit user

def Installs (before : List Action) (w : World) (a : Action) : Prop :=
  (∃ choice, a = .step t choice) ∧ (w.threads t).stage = .claim user ∧
    (w.device.state.claim (some client) user).2 = .ok () ∧
    Took World.step boot (fun _ => Authorizes uidOf t client user .claim) before

/-- The thread passes `ensure_claim` in this step, on a claim for `user` that its client installed. -/
def Relies (before : List Action) (w : World) (a : Action) : Prop :=
  (∃ choice, a = .step t choice) ∧ (∃ method, (w.threads t).stage = .entry method) ∧
    w.device.state.ensureClaim (some client) = .ok user ∧ w.device.state.claimSender = some client ∧
    ∃ claimer, Took World.step boot (Installs boot uidOf claimer client user) before

def ActsFor (actions : List Action) : Prop :=
  Took World.step boot (fun _ => Authorizes uidOf t client user .deleteEnrolledFingers) actions ∨
    Took World.step boot (Relies boot uidOf t client user) actions

end

/-- While it is on the bus, a unique name is that of one uid. -/
def KeepsUid (uidOf : Bytes → UInt32) (w : World) (a : Action) (_ : World) : Prop :=
  ∀ t uid name polkit client, a = .step t (.authorized (.ok (uid,name)) polkit) →
    (w.threads t).sender = some client → uid = uidOf client

structure Isolated (boot : World) (uidOf : Bytes → UInt32) (actions : List Action) (w : World) : Prop where
  acts : ∀ t client user, (w.threads t).sender = some client → (w.threads t).stage.user = some user →
    (w.threads t).stage.claiming = false → ActsFor boot uidOf t client user actions
  claiming : ∀ t client user, (w.threads t).sender = some client → (w.threads t).stage = .claim user →
    Took World.step boot (fun _ => Authorizes uidOf t client user .claim) actions
  claimed : ∀ user, w.device.state.claimedBy = some user → ∃ client claimer,
    w.device.state.claimSender = some client ∧ Took World.step boot (Installs boot uidOf claimer client user) actions

theorem DeviceState.claim_ok {s : DeviceState} {sender : Option Bytes} {user : Bytes}
    (allowed : s.claimedBy = none ∨ s.claimedBy = some user ∧ s.action = none) :
    (s.claim sender user).2 = .ok () := by
  unfold DeviceState.claim
  rcases allowed with free | ⟨mine,inFlight⟩
  · rw [free]
  · rw [mine,inFlight]
    simp

/-- `ensure_claim` of a client that has a name reads the claim of that client. -/
theorem DeviceState.ensureClaim_ok {s : DeviceState} {client user : Bytes} (claimed : s.ensureClaim (some client) = .ok user) :
    s.claimedBy = some user ∧ ∀ claimant, s.claimSender = some claimant → claimant = client := by
  unfold DeviceState.ensureClaim at claimed
  split at claimed
  · cases claimed
  next holder held =>
    split at claimed
    · cases claimed
    next same =>
      obtain rfl := Except.ok.inj claimed
      refine ⟨held,fun claimant sender => ?_⟩
      simp only [DeviceState.otherSender,sender] at same
      by_contra other
      exact same (decide_eq_true (Ne.symm other))

namespace Isolated

variable {boot : World} {uidOf : Bytes → UInt32} {actions : List Action} {w : World}
  (isolated : Isolated boot uidOf actions w)
include isolated

/-- Nothing that the invariant speaks of is new. -/
theorem calm {v : World} {a : Action} (senders : ∀ t, (v.threads t).sender = (w.threads t).sender)
    (stages : ∀ t, (v.threads t).stage = (w.threads t).stage)
    (claimed : v.device.state.claimedBy = none ∨ v.device.state.claimedBy = w.device.state.claimedBy ∧
      v.device.state.claimSender = w.device.state.claimSender) : Isolated boot uidOf (actions ++ [a]) v := by
  constructor
  · intro t client user
    rw [senders,stages]
    exact fun given acting other => (isolated.acts t client user given acting other).imp (·.later [a]) (·.later [a])
  · intro t client user
    rw [senders,stages]
    exact fun given here => (isolated.claiming t client user given here).later [a]
  · intro user holds
    rcases claimed with none | ⟨holder,claimant⟩
    · rw [none] at holds
      cases holds
    · rw [holder] at holds
      obtain ⟨client,claimer,named,installed⟩ := isolated.claimed user holds
      exact ⟨client,claimer,claimant.trans named,installed.later [a]⟩

theorem spawn {t : Tid} {sender : Bytes} {method : Method} {a : Action} :
    Isolated boot uidOf (actions ++ [a]) (w.spawn t sender method) := by
  have here : (w.spawn t sender method).threads t = ⟨some sender,.entry method,[],none⟩ := World.threads_setThread_same
  have there : ∀ u, u ≠ t → (w.spawn t sender method).threads u = w.threads u := fun u => World.threads_setThread_other
  constructor
  · intro u client user given acting other
    by_cases same : u = t
    · subst u
      rw [here] at acting
      cases acting
    · rw [there u same] at given acting other
      exact (isolated.acts u client user given acting other).imp (·.later [a]) (·.later [a])
  · intro u client user given claiming
    by_cases same : u = t
    · subst u
      rw [here] at claiming
      cases claiming
    · rw [there u same] at given claiming
      exact (isolated.claiming u client user given claiming).later [a]
  · intro user holds
    obtain ⟨client,claimer,named,installed⟩ := isolated.claimed user holds
    exact ⟨client,claimer,named,installed.later [a]⟩

omit isolated in
theorem mayActAs {t : Tid} {choice : Choice} {v : World} {client user requested : Bytes} {lookup : CallerLookup}
    {polkit : Except FprintError Bool} (keeps : KeepsUid uidOf w (.step t choice) v)
    (given : (w.threads t).sender = some client) (chosen : choice = .authorized lookup polkit)
    (granted : authorizeUsername (some client) lookup polkit requested = .ok user) :
    MayActAs (uidOf client) lookup polkit user := by
  obtain ⟨uid,name,answer,may⟩ := authorizeUsername_ok granted
  have same : uid = uidOf client := keeps t uid name polkit client (by rw [chosen,answer]) given
  rwa [same] at may

section
variable {t : Tid} {choice : Choice} {turn : Turn} (ran : run World.step boot actions = some w)
  (keeps : KeepsUid uidOf w (.step t choice) (w.commit t turn))
  (allowed : turn.Allowed t w.device (w.threads t) choice)
include ran keeps allowed

/-- The user the thread acts for after its step. -/
theorem acts_turn {client user : Bytes} (given : (w.threads t).sender = some client)
    (acting : turn.thread.stage.user = some user) (other : turn.thread.stage.claiming = false) :
    ActsFor boot uidOf t client user (actions ++ [.step t choice]) := by
  rcases allowed.user user acting with ⟨same,now,_⟩ | ⟨method,here,claimed,_⟩ |
    ⟨lookup,polkit,requested,here,chosen,granted⟩
  · exact (isolated.acts t client user given same now).imp (·.later _) (·.later _)
  · rw [given] at claimed
    obtain ⟨holds,claimant⟩ := DeviceState.ensureClaim_ok claimed
    obtain ⟨holder,claimer,named,installed⟩ := isolated.claimed user holds
    obtain rfl := claimant holder named
    exact .inr (.now ran ⟨⟨choice,rfl⟩,⟨method,here⟩,claimed,named,claimer,installed⟩)
  · rw [given] at granted
    have may := mayActAs keeps given chosen granted
    rcases here with ⟨_,claims⟩ | ⟨atDelete,_⟩
    · rw [claims] at other
      cases other
    · exact .inl (.now ran ⟨lookup,polkit,requested,by rw [chosen],given,atDelete,granted,may⟩)

omit isolated in
theorem claiming_turn {client user : Bytes} (given : (w.threads t).sender = some client)
    (claims : turn.thread.stage = .claim user) :
    Took World.step boot (fun _ => Authorizes uidOf t client user .claim) (actions ++ [.step t choice]) := by
  have marked : turn.thread.stage.claiming = true := by rw [claims]; rfl
  rcases allowed.user user (by rw [claims]; rfl) with ⟨_,_,later⟩ | ⟨_,_,_,later⟩ |
    ⟨lookup,polkit,requested,here,chosen,granted⟩
  · rw [marked] at later
    cases later
  · rw [marked] at later
    cases later
  · rw [given] at granted
    have may := mayActAs keeps given chosen granted
    rcases here with ⟨atClaim,_⟩ | ⟨_,later⟩
    · exact .now ran ⟨lookup,polkit,requested,by rw [chosen],given,atClaim,granted,may⟩
    · rw [marked] at later
      cases later

omit keeps in
theorem claimed_turn (coherent : Coherent w) {user : Bytes} (holds : turn.device.state.claimedBy = some user) :
    ∃ client claimer, turn.device.state.claimSender = some client ∧
      Took World.step boot (Installs boot uidOf claimer client user) (actions ++ [.step t choice]) := by
  have kept : turn.device.state.claimedBy = w.device.state.claimedBy →
      turn.device.state.claimSender = w.device.state.claimSender → ∃ client claimer,
        turn.device.state.claimSender = some client ∧
          Took World.step boot (Installs boot uidOf claimer client user) (actions ++ [.step t choice]) := by
    intro holder claimant
    rw [holder] at holds
    obtain ⟨client,claimer,named,installed⟩ := isolated.claimed user holds
    exact ⟨client,claimer,claimant.trans named,installed.later _⟩
  rcases allowed.state with ⟨_,holder,claimant,_⟩ | ⟨_,_,minted,_,_,_⟩ | ⟨_,_,_,cleared,_⟩ |
    ⟨_,_,_,_,_,cleared,_⟩ | ⟨_,_,_,dropped,_⟩ | ⟨claimant,here,free,installed,_⟩
  · exact kept holder claimant
  · exact kept (by rw [minted]; rfl) (by rw [minted]; rfl)
  · exact kept (by rw [cleared]; rfl) (by rw [cleared]; rfl)
  · exact kept (by rw [cleared]; rfl) (by rw [cleared]; rfl)
  · rw [dropped] at holds
    cases holds
  · rw [installed] at holds ⊢
    obtain rfl := Option.some.inj holds
    obtain ⟨client,given⟩ := coherent.named t (by rw [here]; exact Stage.noConfusion)
    exact ⟨client,t,given,.now ran ⟨⟨choice,rfl⟩,here,DeviceState.claim_ok free,
      isolated.claiming t client claimant given here⟩⟩

theorem commit (coherent : Coherent w) :
    Isolated boot uidOf (actions ++ [.step t choice]) (w.commit t turn) := by
  have here : (w.commit t turn).threads t = turn.thread := World.threads_setThread_same
  have there : ∀ u, u ≠ t → (w.commit t turn).threads u = w.threads u := fun u => World.threads_setThread_other
  constructor
  · intro u client user given acting other
    by_cases same : u = t
    · subst u
      rw [here] at given acting other
      rw [allowed.sender] at given
      exact isolated.acts_turn ran keeps allowed given acting other
    · rw [there u same] at given acting other
      exact (isolated.acts u client user given acting other).imp (·.later _) (·.later _)
  · intro u client user given claims
    by_cases same : u = t
    · subst u
      rw [here] at given claims
      rw [allowed.sender] at given
      exact claiming_turn ran keeps allowed given claims
    · rw [there u same] at given claims
      exact (isolated.claiming u client user given claims).later _
  · exact fun user holds => isolated.claimed_turn ran allowed coherent holds

end

theorem step {v : World} {a : Action} (coherent : Coherent w) (ran : run World.step boot actions = some w)
    (keeps : KeepsUid uidOf w a v) (moved : w.step a = some v) : Isolated boot uidOf (actions ++ [a]) v := by
  cases World.step_moves moved with
  | call t sender method fresh => exact isolated.spawn
  | step t choice turn taken =>
    exact isolated.commit ran keeps (Stage.turn_allowed (coherent.kinded t) taken) coherent
  | leave name present => exact isolated.calm (fun _ => rfl) (fun _ => rfl) (.inr ⟨rfl,rfl⟩)
  | disconnect name rest signals =>
    refine isolated.calm (fun _ => rfl) (fun _ => rfl) ?_
    simp only [World.disconnected,DeviceState.handleClientDisconnect]
    split
    · exact .inl rfl
    · exact .inr ⟨rfl,rfl⟩
  | progress r rest msg queue forwarded =>
    exact isolated.calm (fun _ => World.sender_setThread rfl) (fun _ => World.stage_setThread rfl) (.inr ⟨rfl,rfl⟩)
  | serve r rest executed changed queue effect =>
    exact isolated.calm (fun _ => World.sender_setThread rfl) (fun _ => World.stage_setThread rfl) (.inr ⟨rfl,rfl⟩)

end Isolated

theorem Isolated.boot (uidOf : Bytes → UInt32) (threshold : UInt16) (storage : Storage)
    (templates : UInt8 → Option Owner) :
    Isolated (World.boot threshold storage templates) uidOf [] (World.boot threshold storage templates) where
  acts _ _ _ _ acting := by cases acting
  claiming _ _ _ _ here := by cases here
  claimed _ holds := by cases holds

theorem isolated_run {threshold : UInt16} {storage : Storage} {templates : UInt8 → Option Owner}
    {uidOf : Bytes → UInt32} {actions : List Action} {w : World}
    (ran : run World.step (.boot threshold storage templates) actions = some w)
    (keeps : Along World.step (KeepsUid uidOf) (.boot threshold storage templates) actions) :
    Isolated (.boot threshold storage templates) uidOf actions w := by
  refine history_invariant _ (fun actions w => Along World.step (KeepsUid uidOf) _ actions → Isolated _ uidOf actions w)
    (fun _ => .boot uidOf threshold storage templates) (fun actions w a v before ran moved keeps => ?_) actions w ran keeps
  have coherent := (Coherent.boot threshold storage templates).reachable ⟨actions,ran⟩
  have last := along_drop _ _ _ _ _ keeps ran v moved
  exact (before (along_take _ _ _ _ keeps)).step coherent ran last.1 moved

/-- A row changes only in a step that writes or removes it. -/
theorem changed_writing {w v : World} {a : Action} (coherent : Coherent w) (moved : w.step a = some v)
    {user finger : Bytes} (changed : v.device.storage.getSlot user finger ≠ w.device.storage.getSlot user finger) :
    ∃ t choice, a = .step t choice ∧ (w.threads t).stage.writing = some (user,finger) := by
  cases World.step_moves moved with
  | step t choice turn taken =>
    refine ⟨t,choice,rfl,?_⟩
    rcases (Stage.turn_allowed (coherent.kinded t) taken).registry with ⟨unchanged,_,_⟩ | ⟨_,unchanged,_,_⟩ |
      ⟨u,f,writes,_,_,_,_,removed⟩ | ⟨job,here,_,written⟩
    · exact absurd (congrArg (Storage.getSlot · user finger) unchanged) changed
    · exact absurd (congrArg (Storage.getSlot · user finger) unchanged) changed
    · rw [writes]
      by_contra other
      refine changed ?_
      change turn.device.storage.getSlot user finger = _
      rw [removed]
      exact Storage.getSlot_removeFinger_other _ _ _ _ _ fun same => other (by rw [same])
    · rw [here]
      by_contra other
      refine changed ?_
      change turn.device.storage.getSlot user finger = _
      rw [written]
      exact Storage.getSlot_setSlot_other _ _ _ _ _ _ fun same => other (by rw [same]; rfl)
  | _ => exact absurd rfl changed

/-- In every interleaving a row changes only where a handler or task writes or removes it, and the
client of that call was authorised for the row's user. -/
theorem registry_isolation (threshold : UInt16) (storage : Storage) (templates : UInt8 → Option Owner)
    (uidOf : Bytes → UInt32) (actions : List Action) (w v : World) (a : Action)
    (ran : run World.step (.boot threshold storage templates) actions = some w)
    (keeps : Along World.step (KeepsUid uidOf) (.boot threshold storage templates) actions)
    (moved : w.step a = some v) (user finger : Bytes) :
    (v.device.storage.getSlot user finger ≠ w.device.storage.getSlot user finger →
      ∃ t choice, a = .step t choice ∧ (w.threads t).stage.writing = some (user,finger)) ∧
    ∀ t, (w.threads t).stage.writing = some (user,finger) → ∃ client, (w.threads t).sender = some client ∧
      ActsFor (.boot threshold storage templates) uidOf t client user actions := by
  have coherent := (Coherent.boot threshold storage templates).reachable ⟨actions,ran⟩
  refine ⟨changed_writing coherent moved,fun t writes => ?_⟩
  have isolated := isolated_run ran keeps
  have acting := Stage.user_of_writing writes
  obtain ⟨client,given⟩ := coherent.named t fun idle => by
    rw [idle] at writes
    cases writes
  refine ⟨client,given,isolated.acts t client user given acting ?_⟩
  cases here : (w.threads t).stage with
  | claim claimant =>
    rw [here] at writes
    cases writes
  | _ => rfl

def deletingRun : List Action :=
  [.call 0 (ascii ":1.9") (.deleteEnrolledFingers (ascii "mat")),
    .step 0 (.authorized (.ok (0,some (ascii "root"))) (.ok false)),.step 0 .go,
    .step 0 (.order [(ascii "right-thumb",3)]),.step 0 .go,.serve (.ok (ascii "OK deleted=3")) true,.step 0 .go,.step 0 .go]

theorem deletingRun_runs :
    (run World.step (.boot 50 .oneRow fun _ => none) (deletingRun ++ [.step 0 .go])).isSome = true := by
  decide +kernel

theorem deletingRun_keeps (w : World) : Along World.step (KeepsUid fun _ => 0) w deletingRun := by
  refine along (fun _ => True) _
    (fun a => ∀ t uid name polkit, a = Action.step t (.authorized (.ok (uid,name)) polkit) → uid = 0) w deletingRun
    (fun w a v _ root _ => ⟨trivial,fun t uid name polkit _ same _ => root t uid name polkit same⟩) trivial ?_
  simp only [deletingRun,List.forall_mem_cons]
  simp +contextual [eq_comm]

theorem registry_isolation_delete :
    ∃ client, ActsFor (.boot 50 .oneRow fun _ => none) (fun _ => 0) 0 client (ascii "mat") deletingRun := by
  obtain ⟨v,ran⟩ := Option.isSome_iff_exists.mp deletingRun_runs
  obtain ⟨w,first,last⟩ := (run_append World.step _ _ deletingRun _).mp ran
  obtain ⟨u,moved,_⟩ := (run_cons World.step _ _ _ _).mp last
  have writes : ((run World.step (.boot 50 .oneRow fun _ => none) deletingRun).map fun w =>
      (w.threads 0).stage.writing) = some (some (ascii "mat",ascii "right-thumb")) := by decide +kernel
  rw [first] at writes
  obtain ⟨client,_,acts⟩ := (registry_isolation 50 .oneRow (fun _ => none) (fun _ => 0) deletingRun w u (.step 0 .go) first
    (deletingRun_keeps _) moved (ascii "mat") (ascii "right-thumb")).2 0 (Option.some.inj writes)
  exact ⟨client,acts⟩

end R503.Fprint
