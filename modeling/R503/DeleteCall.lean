import R503.DeviceThreads

/-! The delete methods after their authorisation or `ensure_claim`: `begin_delete`,
`delete_user_fingers` and the rest of `delete_enrolled_finger`. -/
namespace R503.Fprint

open Text

def slotText (slot : UInt8) : Bytes := Decimal.render slot.toNat

def sweepResult (errors : List Bytes) : Except FprintError Unit :=
  if errors = [] then .ok ()
  else .error (.printsNotDeleted (ascii "partial delete: " ++ List.intercalate (ascii "; ") errors))

def DeleteStage.turn (t : Tid) (d : Device) (thread : Thread) (choice : Choice) : DeleteStage → Option Turn
  | .lookup user finger =>
    match d.storage.getSlot user finger with
    | none => some (.ret t d thread (.error (.noEnrolledPrints (finger ++ ascii " not enrolled for " ++ user))))
    | some slot => some (.goto d thread (.delete (.gate user (some (finger,slot)))) [])
  | .gate user only =>
    match d.state.action with
    | some busy => some (.ret t d thread (.error (DeviceState.alreadyInProgress busy)))
    | none =>
      let token := d.state.freshToken .delete
      let d := { d with state := d.state.startAction .delete }
      match only with
      | none => some (.goto d thread (.delete (.snapshot user token)) [])
      | some (finger,slot) => some (.goto d thread (.delete (.one user finger slot token)) [])
  | .snapshot user token =>
    match choice with
    | .order rows =>
      if ¬ rows.isPerm (d.storage.getUserSlots user) then none
      else if rows = [] then some (.goto d thread (.endAction user token (.ok ())) [])
      else some (.goto d thread (.delete (.sweep ⟨user,token,rows,[],[]⟩)) [])
    | _ => none
  | .sweep locals =>
    match locals.todo with
    | [] => some (.goto d thread (.delete (.remove locals)) [])
    | (finger,slot) :: rest =>
      some (.ask t d thread (.delete slot (locals.user,finger))
        (.delete (.await { locals with todo := rest } finger slot)))
  | .await locals finger slot =>
    match thread.reply with
    | none => none
    | some executed =>
      match deleteReply executed with
      | .ok _ =>
        some (.goto d thread (.delete (.sweep { locals with succeeded := locals.succeeded ++ [finger] }))
          [.replied executed])
      | .error e =>
        let text := finger ++ ascii " (slot " ++ slotText slot ++ ascii "): " ++ e.text
        some (.goto d thread (.delete (.sweep { locals with errors := locals.errors ++ [text] }))
          [.replied executed])
  | .remove locals =>
    match locals.succeeded with
    | [] => some (.goto d thread (.endAction locals.user locals.token (sweepResult locals.errors)) [])
    | finger :: rest =>
      some (.goto { d with storage := d.storage.removeFinger locals.user finger } thread
        (.delete (.save { locals with succeeded := rest } finger)) [])
  | .save locals finger =>
    match choice with
    | .saved none => some (.goto d thread (.delete (.remove locals)) [])
    | .saved (some text) =>
      let text := finger ++ ascii " (registry write): " ++ text
      some (.goto d thread (.delete (.remove { locals with errors := locals.errors ++ [text] })) [])
    | _ => none
  | .one user finger slot token =>
    some (.ask t d thread (.delete slot (user,finger)) (.delete (.awaitOne user finger slot token)))
  | .awaitOne user finger slot token =>
    match thread.reply with
    | none => none
    | some executed =>
      match deleteReply executed with
      | .ok _ => some (.goto d thread (.delete (.removeOne user finger token)) [.replied executed])
      | .error e =>
        let text := ascii "sensor delete failed for slot " ++ slotText slot ++ ascii ": " ++ e.text
        some (.goto d thread (.endAction user token (.error (.printsNotDeleted text))) [.replied executed])
  | .removeOne user finger token =>
    some (.goto { d with storage := d.storage.removeFinger user finger } thread (.delete (.saveOne user token)) [])
  | .saveOne user token =>
    match choice with
    | .saved none => some (.goto d thread (.endAction user token (.ok ())) [])
    | .saved (some text) => some (.goto d thread (.endAction user token (.error (.internal text))) [])
    | _ => none

end R503.Fprint
