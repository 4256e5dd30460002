import R503.RustText

/-! The state behind the state lock of the D-Bus device, and the checks and changes made under
it (dbus_iface.rs), with the authorisation of a caller (auth.rs). -/
namespace R503.Fprint

open Text

/-- Variant and text of an error reply (error.rs). -/
inductive FprintError where
  | internal (text : Bytes)
  | claimDevice (text : Bytes)
  | alreadyInUse (text : Bytes)
  | noEnrolledPrints (text : Bytes)
  | noActionInProgress (text : Bytes)
  | invalidFingername (text : Bytes)
  | printsNotDeleted (text : Bytes)
  | permissionDenied (text : Bytes)
  deriving DecidableEq

def fingerNames : List Bytes :=
  [ascii "left-thumb",ascii "left-index-finger",ascii "left-middle-finger",ascii "left-ring-finger",
    ascii "left-little-finger",ascii "right-thumb",ascii "right-index-finger",ascii "right-middle-finger",
    ascii "right-ring-finger",ascii "right-little-finger"]

def validateFinger (name : Bytes) (allowAny : Bool) : Except FprintError Unit :=
  if allowAny ∧ name = ascii "any" then .ok ()
  else if name ∈ fingerNames then .ok ()
  else .error (.invalidFingername name)

/-! ### Authorisation -/

def validateUsername (user : Bytes) : Except FprintError Unit :=
  if user = [] ∨ user = ascii "." ∨ user = ascii ".." ∨ user.any fun b => b = 47 ∨ b = 92 ∨ b < 32 ∨ b = 127 then
    .error (.internal (ascii "unsafe username"))
  else .ok ()

/-- What the bus and `getpwuid_r` answer about a caller: its uid and, if there is one, its name. -/
abbrev CallerLookup := Except FprintError (UInt32 × Option Bytes)

def resolveCaller (sender : Option Bytes) (lookup : CallerLookup) : Except FprintError (UInt32 × Bytes) :=
  match sender,lookup with
  | none,_ => .error (.internal (ascii "missing sender"))
  | some _,.error e => .error e
  | some _,.ok (uid,none) =>
    .error (.internal (ascii "uid " ++ Decimal.render uid.toNat ++ ascii " not in passwd"))
  | some _,.ok (uid,some user) =>
    match validateUsername user with
    | .error e => .error e
    | .ok () => .ok (uid,user)

/-- `polkit` is the answer to `check_authorization`. -/
def authorizeUsername (sender : Option Bytes) (lookup : CallerLookup) (polkit : Except FprintError Bool)
    (requested : Bytes) : Except FprintError Bytes :=
  match resolveCaller sender lookup with
  | .error e => .error e
  | .ok (uid,user) =>
    if requested = [] ∨ requested = user then .ok user
    else if uid = 0 then .ok requested
    else match polkit with
      | .error e => .error e
      | .ok true => .ok requested
      | .ok false =>
        .error (.permissionDenied (ascii "uid " ++ Decimal.render uid.toNat ++
          ascii " not authorized to act as user " ++ requested))

/-! ### The state -/

inductive ActionKind where
  | enroll
  | verify
  | delete
  deriving DecidableEq

def ActionKind.asStr : ActionKind → Bytes
  | .enroll => ascii "enroll"
  | .verify => ascii "verify"
  | .delete => ascii "delete"

structure ActionToken where
  kind : ActionKind
  epoch : UInt64
  deriving DecidableEq

structure DeviceState where
  claimedBy : Option Bytes
  claimSender : Option Bytes
  action : Option ActionToken
  nextEpoch : UInt64
  fingerPresent : Bool
  fingerNeeded : Bool
  deriving DecidableEq

namespace DeviceState

variable (s : DeviceState)

def initial : DeviceState := ⟨none,none,none,0,false,false⟩

/-- The token that `start_action` mints; `nextEpoch` wraps. -/
def freshToken (kind : ActionKind) : ActionToken := ⟨kind,s.nextEpoch⟩

def startAction (kind : ActionKind) : DeviceState :=
  { s with action := some (s.freshToken kind), nextEpoch := s.nextEpoch + 1 }

def clearAction : DeviceState := { s with action := none, fingerNeeded := false, fingerPresent := false }

def endActionIfOwner (expected : ActionToken) : DeviceState × Bool :=
  if s.action = some expected then (s.clearAction,true) else (s,false)

def alreadyInProgress (t : ActionToken) : FprintError :=
  .alreadyInUse (t.kind.asStr ++ ascii " already in progress")

/-- The sender check that `ensure_claim` and `release` share. -/
def otherSender (sender : Option Bytes) : Bool :=
  match sender,s.claimSender with
  | some given,some claimed => given ≠ claimed
  | _,_ => false

def ensureClaim (sender : Option Bytes) : Except FprintError Bytes :=
  match s.claimedBy with
  | none => .error (.claimDevice (ascii "device not claimed"))
  | some user =>
    if s.otherSender sender then .error (.claimDevice (ascii "device claimed by a different sender"))
    else .ok user

/-- `claim` after `user` was authorised. -/
def claim (sender : Option Bytes) (user : Bytes) : DeviceState × Except FprintError Unit :=
  match s.claimedBy,s.action with
  | some existing,action =>
    if existing ≠ user then (s,.error (.alreadyInUse (ascii "already claimed by " ++ existing)))
    else match action with
      | some t => (s,.error (.alreadyInUse (t.kind.asStr ++ ascii " in progress for " ++ existing)))
      | none => ({ s with claimedBy := some user, claimSender := sender },.ok ())
  | none,_ => ({ s with claimedBy := some user, claimSender := sender },.ok ())

def dropClaim : DeviceState := { s.clearAction with claimedBy := none, claimSender := none }

def release (sender : Option Bytes) : DeviceState × Except FprintError Unit :=
  match s.claimedBy with
  | none => (s,.error (.claimDevice (ascii "device not claimed")))
  | some _ =>
    if s.otherSender sender then (s,.error (.claimDevice (ascii "claimed by a different sender")))
    else (s.dropClaim,.ok ())

def handleClientDisconnect (uniqueName : Bytes) : DeviceState :=
  if s.claimSender = some uniqueName then s.dropClaim else s

/-- `verify_stop` and `enroll_stop` after `ensure_claim`. -/
def stop (kind : ActionKind) : DeviceState × Except FprintError Unit :=
  match s.action with
  | some t =>
    if t.kind = kind then (s.clearAction,.ok ())
    else (s,.error (.noActionInProgress (ascii "no " ++ kind.asStr ++ ascii " in progress")))
  | none => (s,.error (.noActionInProgress (ascii "no " ++ kind.asStr ++ ascii " in progress")))

/-- The second lock of `verify_start` and `enroll_start`. -/
def raiseHints : DeviceState := { s with fingerNeeded := true, fingerPresent := false }

end DeviceState

/-- `str::to_lowercase` for the ASCII words the daemon looks for in the result. Beyond A to Z only
U+0130 and U+212A give ASCII letters, an i with a combining dot and a k, and no word has those. -/
def lowercase (msg : Bytes) : Bytes := msg.map fun b => if 65 ≤ b ∧ b ≤ 90 then b + 32 else b

def contains (pattern s : Bytes) : Bool := s.tails.any pattern.isPrefixOf

def isRemoveFinger (msg : Bytes) : Bool :=
  contains (ascii "remove_finger") (lowercase msg) || contains (ascii "remove finger") (lowercase msg)

def updateFingerStateFromProgress (s : DeviceState) (msg : Bytes) : DeviceState :=
  if contains (ascii "place_finger") (lowercase msg) || contains (ascii "place_again") (lowercase msg) then
    { s with fingerNeeded := true, fingerPresent := false }
  else if isRemoveFinger msg then { s with fingerNeeded := false, fingerPresent := true }
  else s

end R503.Fprint
