import ControllerUniffi.Agreement
import ControllerUniffi.Submission
import ControllerUniffi.MaxFee
import ControllerUniffi.NumericOrder
import ControllerUniffi.MintedLink
import ControllerUniffi.RegistrationPage
import ControllerUniffi.ErrorTracking
import ControllerUniffi.Utils
import ControllerUniffi.Bindgen
import ControllerUniffi.Bindings.CallStatus
import ControllerUniffi.Bindings.KotlinLifetime
import ControllerUniffi.LockedSession
