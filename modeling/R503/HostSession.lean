import R503.FirmwareGate

/-! The framed exchange of the daemon's driver (sensor.rs): the counter guard, and the loop
that reads the response lines of one command. -/
namespace R503.Host

open Text

inductive SensorError where
  | io
  | timeout (cmd : Bytes)
  | command (code : Bytes) (detail : Option Bytes)
  | framing (e : FramingError) (line : Bytes)
  | counterMismatch (got want : UInt64)
  | seqMismatch (got want : UInt32)
  | counterExhausted
  | lineTooLong
  deriving DecidableEq

def advanceCounter (counter : UInt64) : Except SensorError UInt64 :=
  if counter ≥ counterCeiling then .error .counterExhausted else .ok (counter + 1)

inductive ResponseStep where
  | skip
  | progress (text : Bytes)
  | done (body : Bytes)
  | fail (e : SensorError)
  deriving DecidableEq

/-- The text `on_progress` is given for a body that is no final line. -/
def progressText (body : Bytes) : Bytes :=
  match stripPrefix (ascii "PROGRESS ") body with
  | some rest => rest
  | none => ascii "[unhandled] " ++ body

def responseStep (key : Key) (counter : UInt64) (expectedSeq : UInt32) (line : Bytes) : ResponseStep :=
  if line = [] then .skip
  else if ¬ (ascii "R ").isPrefixOf line then .fail (.command (ascii "framing_rejected") (some line))
  else match verifyResponse key line with
    | .error e => .fail (.framing e line)
    | .ok (gotCtr,gotSeq,body) =>
      if gotCtr ≠ counter then .fail (.counterMismatch gotCtr counter)
      else if gotSeq ≠ expectedSeq then .fail (.seqMismatch gotSeq expectedSeq)
      else if (ascii "PROGRESS ").isPrefixOf body then .progress (progressText body)
      else if (ascii "OK").isPrefixOf body ∨ (ascii "ERR").isPrefixOf body then .done body
      else .progress (progressText body)

inductive Read where
  | line (text : Bytes)
  | deadline
  | failed (e : SensorError)

/-- The read loop of `execute_framed`: the texts given to `on_progress`, and the result. -/
def awaitResponse (key : Key) (cmd : Bytes) (counter : UInt64) (expectedSeq : UInt32)
    (progress : List Bytes) : List Read → List Bytes × Except SensorError Bytes
  | [] | .deadline :: _ => (progress,.error (.timeout cmd))
  | .failed e :: _ => (progress,.error e)
  | .line line :: reads =>
    match responseStep key counter expectedSeq line with
    | .skip => awaitResponse key cmd counter expectedSeq progress reads
    | .progress text => awaitResponse key cmd counter (expectedSeq + 1) (progress ++ [text]) reads
    | .done body => (progress,.ok body)
    | .fail e => (progress,.error e)

/-- A line that counts towards the answer is a verified frame of this counter and seq. -/
theorem responseStep_progress (key : Key) (counter : UInt64) (seq : UInt32) (line text : Bytes)
    (stepped : responseStep key counter seq line = .progress text) :
    ∃ body, verifyResponse key line = .ok (counter,seq,body) ∧ text = progressText body := by
  unfold responseStep at stepped
  split at stepped
  · cases stepped
  split at stepped
  · cases stepped
  split at stepped
  · cases stepped
  next gotCtr gotSeq body verified =>
    split at stepped
    · cases stepped
    next sameCtr =>
      split at stepped
      · cases stepped
      next sameSeq =>
        obtain rfl := not_not.mp sameCtr
        obtain rfl := not_not.mp sameSeq
        refine ⟨body,verified,?_⟩
        split at stepped
        · exact (ResponseStep.progress.inj stepped).symm
        split at stepped
        · cases stepped
        · exact (ResponseStep.progress.inj stepped).symm

theorem responseStep_done (key : Key) (counter : UInt64) (seq : UInt32) (line body : Bytes)
    (stepped : responseStep key counter seq line = .done body) :
    verifyResponse key line = .ok (counter,seq,body) ∧ Firmware.IsTerminal body := by
  unfold responseStep at stepped
  split at stepped
  · cases stepped
  split at stepped
  · cases stepped
  split at stepped
  · cases stepped
  next gotCtr gotSeq gotBody verified =>
    split at stepped
    · cases stepped
    next sameCtr =>
      split at stepped
      · cases stepped
      next sameSeq =>
        obtain rfl := not_not.mp sameCtr
        obtain rfl := not_not.mp sameSeq
        split at stepped
        · cases stepped
        split at stepped
        next final =>
          obtain rfl := ResponseStep.done.inj stepped
          exact ⟨verified,final⟩
        · cases stepped

theorem progressText_progress (body : Bytes) (progress : Firmware.IsProgress body) :
    ascii "PROGRESS " ++ progressText body = body := by
  obtain ⟨rest,rfl⟩ := List.isPrefixOf_iff_prefix.mp progress
  rw [progressText,stripPrefix_append]

theorem progressText_map (progress : List Bytes) (lead : ∀ p ∈ progress, Firmware.IsProgress p) :
    (progress.map progressText).map (ascii "PROGRESS " ++ ·) = progress := by
  rw [List.map_map]
  exact (List.map_congr_left fun p member => progressText_progress p (lead p member)).trans (List.map_id _)

end R503.Host
