-- Sessions on source texts and doubles, which is what a configuration sets up.
import Acausal.NumericBackend
import Acausal.Session.Basic
import Acausal.SourceFrontend

namespace Acausal

/-- A session from source texts to trajectories of doubles. -/
abbrev NumericSession := Session SourceFrontend NumericBackend

namespace NumericSession

/-- Failures of a session from source texts to trajectories. -/
abbrev Failure := Session.Failure SourceFrontend NumericBackend

/-- Operations of a session from source texts to trajectories. -/
abbrev Act (β : Type) := Session.Operation SourceFrontend NumericBackend β

/-- The session that a configuration asks for. -/
def ofConfiguration (files : Files) (c : Configuration) : NumericSession :=
  let frontend := c.libraries.entries.foldl
    (fun frontend entry => frontend.registerLibrary entry.1 entry.2) (.fresh files)
  .start frontend (.quiet c.integrator) c

/-- Changes the frontend of a session. -/
def mapFrontend (change : SourceFrontend → SourceFrontend) (s : NumericSession) : NumericSession :=
  { s with frontend := change s.frontend }

/-- Holds a source text in memory, over an earlier one at the same path. -/
def addSource (path text : String) : NumericSession → NumericSession :=
  mapFrontend (·.addSource path text)

/-- Makes a library known under an id, which does not load it. -/
def registerLibrary (id path : String) : NumericSession → NumericSession :=
  mapFrontend (·.registerLibrary id path)

end NumericSession

end Acausal
