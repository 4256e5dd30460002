import R503.PairingFlows

/-! What a failed `--pair` leaves behind: the Nano's key may be in no host file. -/
namespace R503.Host

open Text Firmware Fallible

section
variable (tpm : Tpm) (io : CliIo) (w : Site) (sealTpm : Bool) (sealTpmPcrs : Option Bytes)

variable (key : Key)

end

/-- A link planted for the backup, under a marker. -/
def linkedBackup : HostFiles
  | .keyBak => some (.link .key)
  | p => markerFiles p

/-- A plain pairing in which `state.json.tmp` cannot be created. -/
def stateless : CliIo := { CliIo.smooth katKey allOk with stateWrite := { WriteIo.done with create := false } }

/-- The copy of the key goes through the link and empties the key it is made from. -/
theorem linked_backup_strands_nano : ∃ t e,
    runPair .echo stateless false none ⟨linkedBackup,fun _ => 0xFF⟩ = (t,.error (.fails e)) ∧
      eeLoadKey t.ee = some katKey ∧ loadKeyWithSource .echo t.files = .ok none := by
  let w : Site := ⟨linkedBackup,fun _ => 0xFF⟩
  have sent : keySent .echo stateless w false = some katKey := by
    refine if_pos ⟨rfl,fun _ => rfl,rfl,?_,rfl,?_⟩ <;> decide
  let left : HostFiles := (saveKey .done .done katKey w.closed).1
  have emptied : loadKeyWithSource .echo (saveKey .done .done katKey (linkedBackup.remove .allowPair)).1 = .ok none := by
    rfl
  have copied : saveKey .done .done katKey w.closed = (left,.ok ()) := rfl
  have stored : storeKey .echo stateless katKey false none (w.nanoPaired katKey) =
      (⟨left,eeSavePairing w.ee katKey⟩,.ok ()) := by
    rw [storeKey_plain]
    exact onFiles_ok copied
  have ran : storePairing .echo stateless katKey false none (w.nanoPaired katKey) =
      (⟨left,eeSavePairing w.ee katKey⟩,.error (.fails (.file .creating))) := bind_eq stored _
  exact ⟨_,_,(runPair_sent .echo stateless w false none katKey sent).trans ran,eeLoadKey_savePairing w.ee katKey,emptied⟩

end R503.Host
