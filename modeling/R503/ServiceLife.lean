import R503.DaemonRuns
import R503.KeyAgreement
import R503.Resync

/-! The life of a sensor and its host: the pairing tools, `--resync`, runs of the daemon, and accidents to
`state.json` and to the EEPROM, in any order. Once the tools have said that the two ends fit together, a run of
the daemon gives what its calls mean. -/
namespace R503.Fprint

open Text Host Firmware Fallible

inductive LifeAction where
  | cli (op : CliOp)
  | resync (port readable : Bool) (write : WriteIo) (lib : Library)
  | daemon (readable : Bool) (calls : List DaemonCall)
  | stateLost
  /-- `state.json` is replaced by any other regular file. -/
  | stateReplaced (uid mode : Nat) (content : Option Bytes)

/-- A site, and whether its operator has reason to rely on the keys and on the counters. -/
structure Life where
  site : Site
  keys : Bool
  counters : Bool

/-- A success of this operation settles the key: there is no `key.tpm` that a plain pairing or the unpairing
of an unpaired Nano would leave in place, and that unpairing can remove its files. -/
def Settles (w : Site) : CliOp → Prop
  | .pair _ sealTpm _ => sealTpm = true ∨ w.files.found .keyTpm = none
  | .resealTpm _ _ => True
  | .unpair io => eeIsPaired w.ee = true ∨ io.delete.Fine ∧ w.files.found .keyTpm = none
  | .resealPolicy _ _ | .reflashToWipe | .touchAllowPair => False

instance (w : Site) : (op : CliOp) → Decidable (Settles w op)
  | .pair _ _ _ => inferInstanceAs (Decidable (_ ∨ _))
  | .resealTpm _ _ => inferInstanceAs (Decidable True)
  | .unpair _ => inferInstanceAs (Decidable (_ ∨ _))
  | .resealPolicy _ _ | .reflashToWipe | .touchAllowPair => inferInstanceAs (Decidable False)

def sparesKey : CliOp → Bool
  | .resealPolicy _ _ | .touchAllowPair => true
  | .pair _ _ _ | .unpair _ | .resealTpm _ _ | .reflashToWipe => false

section
variable (tpm : Tpm) (fromSlice : Bytes → Option UInt64) (report : Host.SensorError → SensorError)

/-- `main` up to the open driver. It does not start on a key that is there but cannot be loaded. -/
def boot (readable : Bool) (w : Site) : Option Service :=
  match loadKeyWithSource tpm w.files with
  | .error _ => none
  | .ok none => some ⟨none,w⟩
  | .ok (some (key,_)) => (armedWith fromSlice readable w.files).map fun counter => ⟨some (key,counter),w⟩

/-- A run of `r503d` with these calls; there are no outcomes if it does not start. -/
def serve (readable : Bool) (w : Site) (calls : List DaemonCall) : Option (List Outcome) × Site :=
  match boot tpm fromSlice readable w with
  | none => (none,w)
  | some s =>
    let (outcomes,left) := s.run fromSlice report calls
    (some outcomes,left.site)

def resyncNano (ee : Eeprom) (port readable : Bool) (write : WriteIo) (lib : Library) :
    Fallible HostFiles (Halt ResyncError) Unit := fun files =>
  match returned (loadKeyWithSource tpm files) with
  | none => (files,.error .never)
  | some loaded =>
    match resyncCounter ⟨loaded,port,(exchange ee lib (ascii "status")).2,readable,write⟩ with
    | .error e => (files,.error (.fails e))
    | .ok newCounter =>
      match stateLoadFrom fromSlice readable files with
      | .error e => (files,.error (e.map .loadingState))
      | .ok _ =>
        let (left,result) := stateSave write newCounter files
        (left,result.mapError (.map .file))

def Life.act (w : Life) : LifeAction → Life
  | .cli op =>
    let (site,result) := op.run tpm fromSlice w.site
    if Settles w.site op ∧ result.isOk then ⟨site,true,true⟩
    else ⟨site,w.keys && sparesKey op,w.counters⟩
  | .resync port readable write lib =>
    let (files,result) := resyncNano tpm fromSlice w.site.ee port readable write lib w.site.files
    ⟨⟨files,w.site.ee⟩,w.keys,w.counters || result.isOk⟩
  | .daemon readable calls => ⟨(serve tpm fromSlice report readable w.site calls).2,w.keys,
      w.counters && readable && calls.all fun t => t.reopened != some false⟩
  | .stateLost => ⟨⟨w.site.files.remove .state,w.site.ee⟩,w.keys,false⟩
  | .stateReplaced uid mode content =>
    ⟨⟨w.site.files.place .state ⟨uid,mode,.file content⟩,w.site.ee⟩,w.keys,false⟩

def CountersFit (w : Site) : Prop :=
  ∃ n, stateLoadFrom fromSlice true w.files = .ok (some n) ∧ eeLoadCounter w.ee < n

/-- The two ends fit together, their counters too if those are relied on. -/
def Fits (counters : Bool) (w : Site) : Prop :=
  KeysGone tpm w ∨ KeysAgree tpm w ∧ (counters = true → CountersFit fromSlice w)

structure Life.Sound (w : Life) : Prop where
  neat : Neat w.site.files
  fits : w.keys = true → Fits tpm fromSlice w.counters w.site

end

/-! ### Runs of the daemon -/

section
variable {tpm : Tpm} {fromSlice : Bytes → Option UInt64} (report : Host.SensorError → SensorError) {w : Site}

theorem neat_serve (readable : Bool) (calls : List DaemonCall) (neat : Neat w.files) :
    Neat (serve tpm fromSlice report readable w calls).2.files := by
  unfold serve
  cases booted : boot tpm fromSlice readable w with
  | none => exact neat
  | some s =>
    refine neat_run fromSlice report ?_ calls
    unfold boot at booted
    split at booted
    · cases booted
    · obtain rfl := Option.some.inj booted
      exact neat
    · obtain ⟨_,_,rfl⟩ := Option.map_eq_some_iff.mp booted
      exact neat

theorem serve_gone (fromSlice : Bytes → Option UInt64) (report : Host.SensorError → SensorError) (readable : Bool)
    (calls : List DaemonCall) (gone : KeysGone tpm w) :
    (serve tpm fromSlice report readable w calls).2 = w ∧ ((∀ t ∈ calls, t.Fine) →
      (serve tpm fromSlice report readable w calls).1 = some (calls.map fun t => t.call.outcome t.lib)) := by
  have booted : boot tpm fromSlice readable w = some ⟨none,w⟩ := by rw [boot,gone.1]
  obtain ⟨same,meant⟩ := Service.run_plain fromSlice report gone.2 calls
  rw [serve,booted]
  exact ⟨congrArg Service.site same,fun fine => congrArg some (meant fine)⟩

/-- A daemon with the key of the Nano starts as one whose port is opened anew. -/
theorem boot_keyed {key : Key} (readable : Bool) (n : UInt64) (loads : Loads tpm w.files key) :
    boot tpm fromSlice readable w = Service.reopen fromSlice ⟨some (key,n),w⟩ (some readable) := by
  obtain ⟨source,loaded⟩ := loads
  rw [boot,loaded]
  rfl

/-- The state before the port is opened, with the counter it will find. -/
theorem armed_site {counters : Bool} (neat : Neat w.files) (agree : KeysAgree tpm w)
    (fit : counters = true → CountersFit fromSlice w) :
    ∃ key counter, Loads tpm w.files key ∧ Armed tpm fromSlice counters key counter ⟨some (key,counter),w⟩ := by
  obtain ⟨key,held,loads⟩ := agree
  cases counters with
  | true =>
    obtain ⟨n,saved,newer⟩ := fit rfl
    exact ⟨key,n,loads,neat,loads,held,rfl,fun _ => saved,fun _ => newer⟩
  | false => exact ⟨key,freshCounter,loads,neat,loads,held,rfl,nofun,nofun⟩

variable (reads : ∀ n, fromSlice (stateText n) = some n)
include reads

theorem serve_agrees {counters : Bool} (readable : Bool) (calls : List DaemonCall) (neat : Neat w.files)
    (agree : KeysAgree tpm w) (fit : counters = true → CountersFit fromSlice w) :
    KeysAgree tpm (serve tpm fromSlice report readable w calls).2 ∧
      ((counters && readable && calls.all fun t => t.reopened != some false) = true →
        CountersFit fromSlice (serve tpm fromSlice report readable w calls).2) := by
  obtain ⟨key,counter,loads,armed⟩ := armed_site neat agree fit
  rw [serve,boot_keyed readable counter loads]
  cases opened : Service.reopen fromSlice ⟨some (key,counter),w⟩ (some readable) with
  | none =>
    refine ⟨agree,fun trusted => fit ?_⟩
    exact (Bool.and_eq_true_iff.mp (Bool.and_eq_true_iff.mp trusted).1).1
  | some s =>
    obtain ⟨_,ready,_⟩ := armed.reopen (some readable) s opened
    obtain ⟨_,left⟩ := ready.run report reads calls
    refine ⟨⟨key,left.held,left.loads⟩,fun trusted => ⟨_,left.saved ?_,left.newer ?_⟩⟩
    all_goals
      cases readable
      · simp at trusted
      · simpa using trusted

end

/-! ### `--resync` -/

section
variable (tpm : Tpm) (fromSlice : Bytes → Option UInt64) (files : HostFiles) (ee : Eeprom) (port readable : Bool)
  (write : WriteIo) (lib : Library)

/-- A resync touches nothing, or the host has a key and what is saved is the counter after the Nano's. -/
theorem resyncNano_cases : (∃ e, resyncNano tpm fromSlice ee port readable write lib files = (files,.error e)) ∨
    (∃ key, Loads tpm files key) ∧ eeLoadCounter ee < eeLoadCounter ee + 1 ∧
      resyncNano tpm fromSlice ee port readable write lib files =
        ((stateSave write (eeLoadCounter ee + 1) files).1,
          (stateSave write (eeLoadCounter ee + 1) files).2.mapError (.map .file)) := by
  unfold resyncNano
  split
  · exact .inl ⟨_,rfl⟩
  next loaded found =>
    split
    · exact .inl ⟨_,rfl⟩
    next n given =>
      split
      · exact .inl ⟨_,rfl⟩
      -- the reply is the Nano's own
      obtain ⟨⟨key,source⟩,line,fw,same,_,reply,parsed,_,below,rfl⟩ := resyncCounter_ok given
      rw [exchange_status] at reply
      obtain rfl := Option.some.inj reply
      rw [parseStatus_statusLine] at parsed
      obtain rfl := Except.ok.inj parsed
      have small : eeLoadCounter ee < Host.counterCeiling := below.trans (by decide)
      refine .inr ⟨⟨key,source,?_⟩,lt_next _ _ (if_neg (not_le.mpr small)),rfl⟩
      dsimp only at same
      subst same
      unfold returned at found
      split at found
      next held => exact held.trans (congrArg Except.ok (Except.ok.inj (Option.some.inj found)))
      · cases Option.some.inj found
      · cases found

variable {tpm fromSlice files ee readable write}

end

/-! ### The tools -/

section
variable {tpm : Tpm} {fromSlice : Bytes → Option UInt64} {io : CliIo} {w t : Site}

theorem storeKey_ee (tpm : Tpm) (io : CliIo) (key : Key) (sealTpm : Bool) (sealTpmPcrs : Option Bytes) (v : Site) :
    (storeKey tpm io key sealTpm sealTpmPcrs v).1.ee = v.ee := by
  have files (x : FileOp) : Keeps (fun s : Site => s.ee = v.ee) (onFiles x) := fun _ same => same
  cases sealTpm with
  | true => exact keeps_bind (keeps_fromExcept _) (fun _ => files _) v rfl
  | false => exact files (saveKey io.keyWrite io.copy key) v rfl

/-- A pairing that succeeds leaves the first counter on disk, and a Nano that has seen none. -/
theorem pair_counters (reads : ∀ n, fromSlice (stateText n) = some n) (sealTpm : Bool) (sealTpmPcrs : Option Bytes) :
    Fallible.Ends (fun w : Site => Neat w.files) (fun _ => CountersFit fromSlice) (runPair tpm io sealTpm sealTpmPcrs) := by
  intro w neat t _ ran
  cases sent : keySent tpm io w sealTpm with
  | none =>
    obtain ⟨e,stopped⟩ := runPair_stops tpm io w sealTpm sealTpmPcrs sent
    rw [stopped] at ran
    cases (Prod.mk.inj ran).2
  | some key =>
    rw [runPair_sent tpm io w sealTpm sealTpmPcrs key sent] at ran
    obtain ⟨v,_,stored,rest⟩ := bind_ok ran
    obtain ⟨saved,same⟩ := onFiles_done rest
    have kept := keeps_storeKey (toolsKeep_neat tpm) io key sealTpm sealTpmPcrs (w.nanoPaired key) (neat.remove .allowPair)
    have ee := storeKey_ee tpm io key sealTpm sealTpmPcrs (w.nanoPaired key)
    rw [stored] at kept ee
    refine ⟨freshCounter,stateSave_loads reads kept saved,?_⟩
    rw [same,ee,Site.nanoPaired,eeLoadCounter_savePairing]
    decide

/-- Where no `key.tpm` hides it, the key of a plain pairing is the one the host loads. -/
theorem pair_plain_agrees {sealTpmPcrs : Option Bytes} (tidy : Tidy w.files) (noBlob : w.files.found .keyTpm = none)
    (ran : runPair tpm io false sealTpmPcrs w = (t,.ok ())) : KeysAgree tpm t := by
  cases sent : keySent tpm io w false with
  | none =>
    obtain ⟨e,stopped⟩ := runPair_stops tpm io w false sealTpmPcrs sent
    rw [stopped] at ran
    cases (Prod.mk.inj ran).2
  | some key =>
    obtain ⟨held,loads⟩ := pair_plain_loads io sealTpmPcrs tidy sent ran
    exact ⟨key,held,loads.mpr (.inl noBlob)⟩

/-- An operation that settles the key leaves two ends that fit together. -/
theorem settled (reads : ∀ n, fromSlice (stateText n) = some n) {op : CliOp} (neat : Neat w.files)
    (settles : Settles w op) (ran : op.run tpm fromSlice w = (t,.ok ())) : Fits tpm fromSlice true t := by
  cases op with
  | pair io sealTpm sealTpmPcrs =>
    refine .inr ⟨?_,fun _ => pair_counters reads sealTpm sealTpmPcrs w neat t () ran⟩
    cases sealTpm with
    | true => exact pair_sealed_agrees io sealTpmPcrs w neat.1 t () ran
    | false => exact pair_plain_agrees neat.1 (settles.resolve_left (by decide)) ran
  | unpair io =>
    have safe (unpaired : eeIsPaired w.ee = false) := settles.resolve_left (by simp [unpaired])
    exact .inl (unpair_gone io fromSlice w neat.1 (fun unpaired => (safe unpaired).1) (fun unpaired _ => (safe unpaired).2) ran)
  | resealTpm io sealTpmPcrs =>
    have counters := ends_runResealTpm io sealTpmPcrs (toolsKeep_neat tpm) (pair_counters reads true sealTpmPcrs)
    exact .inr ⟨resealTpm_agrees io sealTpmPcrs w neat.1 t () ran,fun _ => counters w neat t () ran⟩
  | resealPolicy io newPcrs | reflashToWipe | touchAllowPair => exact settles.elim

/-- Two ends fit together as long as their files are the same. -/
theorem fits_same {counters still : Bool} {left : HostFiles} (fits : Fits tpm fromSlice counters w)
    (same : ∀ p ∈ [Path.key,.keyBak,.keyTpm], w.files.Same left p)
    (state : still = true → counters = true ∧ w.files.Same left .state) : Fits tpm fromSlice still ⟨left,w.ee⟩ := by
  have key := same .key (by decide)
  have keyBak := same .keyBak (by decide)
  have keyTpm := same .keyTpm (by decide)
  rcases fits with ⟨gone,unpaired⟩ | ⟨⟨k,held,loads⟩,fit⟩
  · exact .inl ⟨(loadKeyWithSource_congr key.entry keyBak.entry keyTpm.found).trans gone,unpaired⟩
  · refine .inr ⟨⟨k,held,(loads_same tpm k key keyBak keyTpm).mpr loads⟩,fun trusted => ?_⟩
    obtain ⟨before,kept⟩ := state trusted
    obtain ⟨n,saved,newer⟩ := fit before
    exact ⟨n,(stateLoadFrom_same true kept).trans saved,newer⟩

/-- A new policy leaves everything alone, or seals the key that was loaded. -/
theorem resealPolicy_spares (io : CliIo) (tidy : Tidy w.files) {key : Key} (newPcrs : Option (List UInt8))
    (loads : Loads tpm w.files key) : (runResealPolicy tpm io newPcrs w).1.ee = w.ee ∧
      w.files.Same (runResealPolicy tpm io newPcrs w).1.files .state ∧
      Loads tpm (runResealPolicy tpm io newPcrs w).1.files key := by
  obtain ⟨source,loaded⟩ := loads
  rw [runResealPolicy,bind_eq (loadForCli_eq w _ loaded)]
  dsimp only
  cases made : tpm.sealKey io.attempt key newPcrs with
  | none => exact ⟨rfl,.refl _ _,source,loaded⟩
  | some blob =>
    have plain := tidy.target (p := .keyTpmTmp) (by decide)
    rw [bind_eq (a := blob) (v := w) rfl,tpm.unsealsSealed _ _ _ _ made,bind_eq (a := key) (v := w) rfl,require_bind,
      if_pos rfl]
    cases ran : persistSealedBlob io.keyWrite blob w.files with
    | mk left result =>
      cases result with
      | error e =>
        have same {p : Path} (own : p ∈ ownPaths) (notTmp : p ≠ .keyTpmTmp) : w.files.Same left p := by
          have kept : w.files.Same (persistSealedBlob io.keyWrite blob w.files).1 p :=
            same_replaceFile tidy.apart plain (by rw [← persistSealedBlob,ran]; simp) own (by decide) notTmp
          rwa [ran] at kept
        rw [bind_error (onFiles_error ran)]
        exact ⟨rfl,same (by decide) (by decide),(loads_same tpm key (same (by decide) (by decide))
          (same (by decide) (by decide)) (same (by decide) (by decide))).mpr ⟨source,loaded⟩⟩
      | ok =>
        obtain ⟨replaces,rfl⟩ := replaceFile_ok plain ran
        have state : w.files.Same (replaced w.files .keyTpmTmp .keyTpm blob) .state :=
          same_replaced tidy.apart (by decide) (by decide) (by decide) (by decide) (by decide)
        have apart := apart_replaced blob tidy.apart (by decide) (by decide)
          (by decide : Path.keyTpm ≠ .keyTpmTmp) plain
        rw [bind_eq (onFiles_ok ran)]
        split
        · have keptState := spares_attempt (spares_deleteKey io.delete (p := .state)
            (by decide) (by decide) (by decide)) _ apart
          have keptTpm := spares_attempt (spares_deleteKey io.delete (p := .keyTpm)
            (by decide) (by decide) (by decide)) _ apart
          exact ⟨rfl,state.trans keptState.2,loads_blob made tidy.apart replaces keptTpm.2⟩
        · exact ⟨rfl,state,loads_blob made tidy.apart replaces (.refl _ _)⟩

/-- An operation that spares the key spares the counters too. -/
theorem spared {op : CliOp} (spares : sparesKey op = true) {counters : Bool} (tidy : Tidy w.files)
    (fits : Fits tpm fromSlice counters w) : Fits tpm fromSlice counters (op.run tpm fromSlice w).1 := by
  cases op with
  | pair io sealTpm sealTpmPcrs | unpair io | resealTpm io sealTpmPcrs | reflashToWipe => cases spares
  | touchAllowPair =>
    have same (p : Path) (own : p ∈ ownPaths) (other : p ≠ .allowPair) :
        w.files.Same (attempt touchMarker w.files).1 p :=
      (spares_attempt (spares_touchMarker own other) w.files tidy.apart).2
    refine fits_same fits (fun p member => ?_) fun trusted => ⟨trusted,same .state (by decide) (by decide)⟩
    simp only [List.mem_cons,List.not_mem_nil,or_false] at member
    rcases member with rfl | rfl | rfl <;> exact same _ (by decide) (by decide)
  | resealPolicy io newPcrs =>
    rcases fits with gone | ⟨⟨key,held,loads⟩,fit⟩
    · have stopped : loadForCli tpm w = (w,.error (.fails .noKey)) := by rw [loadForCli,getFiles_bind,gone.1]; rfl
      have same : CliOp.run tpm fromSlice (.resealPolicy io newPcrs) w = (w,.error (.fails .noKey)) :=
        bind_error stopped _
      rw [same]
      exact .inl gone
    · obtain ⟨ee,state,still⟩ := resealPolicy_spares io tidy newPcrs loads
      refine .inr ⟨⟨key,(congrArg eeLoadKey ee).trans held,still⟩,fun trusted => ?_⟩
      obtain ⟨n,saved,newer⟩ := fit trusted
      exact ⟨n,(stateLoadFrom_same true state).trans saved,lt_of_eq_of_lt (congrArg eeLoadCounter ee) newer⟩

end

/-! ### Every step -/

section
variable {tpm : Tpm} {fromSlice : Bytes → Option UInt64} (reads : ∀ n, fromSlice (stateText n) = some n)
  (report : Host.SensorError → SensorError) {w : Life}
include reads

theorem sound_cli (sound : w.Sound tpm fromSlice) (op : CliOp) :
    (w.act tpm fromSlice report (.cli op)).Sound tpm fromSlice := by
  have neat := keeps_run (toolsKeep_neat tpm) fromSlice op w.site sound.neat
  unfold Life.act
  dsimp only
  split
  next told =>
    refine ⟨neat,fun _ => ?_⟩
    cases ran : op.run tpm fromSlice w.site with
    | mk t result =>
      rw [ran] at told
      cases result with
      | error e => cases told.2
      | ok => exact settled reads sound.neat told.1 ran
  · refine ⟨neat,fun keys => ?_⟩
    obtain ⟨before,spares⟩ := Bool.and_eq_true_iff.mp keys
    exact spared spares sound.neat.1 (sound.fits before)

theorem sound_resync (sound : w.Sound tpm fromSlice) (port readable : Bool) (write : WriteIo) (lib : Library) :
    (w.act tpm fromSlice report (.resync port readable write lib)).Sound tpm fromSlice := by
  unfold Life.act
  dsimp only
  rcases resyncNano_cases tpm fromSlice w.site.files w.site.ee port readable write lib with
    ⟨e,failed⟩ | ⟨⟨k,source,loaded⟩,newer,ran⟩
  · rw [failed]
    simpa [Except.isOk,Except.toBool] using sound
  · rw [ran]
    refine ⟨keeps_neat_stateSave write _ _ sound.neat,fun keys => ?_⟩
    rcases sound.fits keys with gone | ⟨⟨key,held,loads⟩,fit⟩
    · rw [gone.1] at loaded
      cases loaded
    · refine .inr ⟨⟨key,held,(loads_stateSave tpm write _ key sound.neat.1).mpr loads⟩,fun trusted => ?_⟩
      cases saved : stateSave write (eeLoadCounter w.site.ee + 1) w.site.files with
      | mk left result =>
        cases result with
        | ok => exact ⟨_,stateSave_loads reads sound.neat saved,newer⟩
        | error e =>
          have same := stateSave_same write (eeLoadCounter w.site.ee + 1) sound.neat.1
          rw [saved] at same trusted
          obtain ⟨n,before,fresh⟩ := fit (by simpa [Except.mapError,Except.isOk,Except.toBool] using trusted)
          exact ⟨n,(stateLoadFrom_same true (same (by simp))).trans before,fresh⟩

theorem sound_daemon (sound : w.Sound tpm fromSlice) (readable : Bool) (calls : List DaemonCall) :
    (w.act tpm fromSlice report (.daemon readable calls)).Sound tpm fromSlice := by
  refine ⟨neat_serve report readable calls sound.neat,fun keys => ?_⟩
  rcases sound.fits keys with gone | ⟨agree,fit⟩
  · have same := (serve_gone fromSlice report readable calls gone).1
    exact .inl ((congrArg (KeysGone tpm) same).mpr gone)
  · exact .inr (serve_agrees report reads readable calls sound.neat agree fit)

theorem Life.Sound.act (sound : w.Sound tpm fromSlice) (a : LifeAction) :
    (w.act tpm fromSlice report a).Sound tpm fromSlice := by
  have apart := sound.neat.1.apart
  -- what becomes of `state.json` leaves the keys
  have replaced {left : HostFiles} (neat : Neat left) (changed : ∀ r, r ≠ .state → left r = w.site.files r) :
      Life.Sound tpm fromSlice ⟨⟨left,w.site.ee⟩,w.keys,false⟩ := by
    refine ⟨neat,fun keys => fits_same (sound.fits keys) (fun p member => ?_) nofun⟩
    simp only [List.mem_cons,List.not_mem_nil,or_false] at member
    rcases member with rfl | rfl | rfl <;>
      exact apart.same_entry changed (by decide) (by decide) (by decide)
  cases a with
  | cli op => exact sound_cli reads report sound op
  | resync port readable write lib => exact sound_resync reads report sound port readable write lib
  | daemon readable calls => exact sound_daemon reads report sound readable calls
  | stateLost => exact replaced (sound.neat.remove .state) fun r there => Disk.remove_other _ there
  | stateReplaced uid mode content =>
    exact replaced (sound.neat.place uid mode content (by decide) (by decide)) fun r there => Disk.place_other _ there

end

end R503.Fprint
