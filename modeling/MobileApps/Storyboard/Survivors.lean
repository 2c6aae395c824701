import MobileApps.Storyboard.Convergence

/-! What a load lists once the queues are empty, and what a deletion settles for good. -/

namespace MobileApps.Storyboard

open Firestore Library.Unicode Library.DocumentStore Library.Rows Library.Runs

variable {U : Tables}

end MobileApps.Storyboard
