import R503.DriverSessions
import R503.SyncHandshake

/-! The first call after the handshake (sensor.rs), when the answers to other pings come in front of its own: over
the framed channel none of them passes for an answer, over the plain one a whole pong does. -/
namespace R503.Fprint

open Text Host Firmware Segments Sync

/-! ### Reading what came before -/

/-- The outcome of the call, after some progress texts that are not its own. -/
def Gives (step : SessionStep) (noise : List Bytes) (result : List Bytes × Except Host.SensorError Bytes) : Prop :=
  ∃ last, step.call.reply (.ok last) = (step.call.outcome step.lib).2 ∧
    result = (noise ++ (step.call.outcome step.lib).1,.ok last)

section
variable {e : Eeprom} {step : SessionStep} {stale : Bytes} {m : Nat}

end

/-! ### After any handshake -/

end R503.Fprint
