import MobileApps.Library.Canonical
import MobileApps.Library.Runs
import MobileApps.Library.Regex
import MobileApps.Library.DocumentStore
import MobileApps.Firestore.Paths
import MobileApps.Library.Decimal
import MobileApps.Storyboard.AddTask
import MobileApps.Storyboard.ViewController
import MobileApps.Storyboard.Handlers
import MobileApps.Storyboard.DeviceInvariant
import MobileApps.Storyboard.Verdicts
import MobileApps.Storyboard.Session
import MobileApps.Storyboard.HalfSaved
import MobileApps.Storyboard.Login
import MobileApps.SwiftUI.Loads
import MobileApps.SwiftUI.Disappear
import MobileApps.SwiftUI.RowDeletion
import MobileApps.SwiftUI.SavedShown
import MobileApps.Storyboard.Signup
import MobileApps.SwiftUI.Authentication
import MobileApps.Exchanger.Authorization
import MobileApps.SignupGates
import MobileApps.FinalSuccess
import MobileApps.SwiftUI.Verification
import MobileApps.Exchanger.AnsweredOnce
import MobileApps.Exchanger.NetworkAnswers
import MobileApps.Storyboard.Cells
import MobileApps.SwiftUI.Separation
import MobileApps.Library.Url
import MobileApps.Exchanger.ConversionRequest
import MobileApps.Exchanger.RatesShown
import MobileApps.Exchanger.Calculator
import MobileApps.Exchanger.PasswordReset
import MobileApps.CredentialRules
import MobileApps.Storyboard.TaskKeys
import MobileApps.Storyboard.Survivors
import MobileApps.Storyboard.Erasure
import MobileApps.Firestore.CollectionQuery
import MobileApps.Firestore.WriteProgress
import MobileApps.Firestore.QueryListeners
