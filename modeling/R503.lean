import R503.CaptureClaim
import R503.CommandAgreement
import R503.CounterSync
import R503.DeleteOwnership
import R503.FramePanics
import R503.FramerOutput
import R503.KeyAgreement
import R503.LivingClaim
import R503.PairingFailure
import R503.RegistryFailure
import R503.RegistryIsolation
import R503.ResealCuts
import R503.ResyncCeiling
import R503.SensorWorker
import R503.SignalIsolation
import R503.SipReference
import R503.SealedBlob
import R503.RingHistory
import R503.BitRot
import R503.SlotArguments
import R503.InputLines
import R503.LineReader
import R503.KeyAdmission
import R503.FingerHints
import R503.FrameTexts
import R503.DeviceRest
import R503.MatchOwner
import R503.ActionEpochs
import R503.FlashAgreement
import R503.ServiceLife
import R503.FirstCall
