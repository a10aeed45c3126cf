import Provisioning.Dependencies.Universe

/-!
# Dependencies of a set of applications

A dependency of a candidate is met by a candidate of its name in its range, or else by the first
entitled application of its name, if that lies in the range.
-/

namespace Provisioning

/-- What becomes of a dependency. -/
inductive DependencyOutcome where
  /-- There is an application in the range. -/
  | met
  /-- There is no application of the name. -/
  | missing
  /-- The application of the name has another version. -/
  | mismatched (installedId : String)
deriving DecidableEq, Repr

/-- Whether each application of a list lies in a range. The versions of all of them have to be
readable. -/
def VersionRange.acceptsEach (range : VersionRange) (applications : List Application) :
    Except Refusal (List (Application × Bool)) :=
  applications.mapM fun (a : Application) => a.semver.map fun v => (a, range.accepts v)

/-- What becomes of a dependency of a candidate. -/
def Dependency.outcome (candidates entitled : List Application) (d : Dependency) :
    Except Refusal DependencyOutcome := do
  let range ← d.versions
  let matching ← range.acceptsEach (candidates.filter (·.name = d.name))
  if matching.any (·.2) then
    return .met
  match entitled.find? (·.name = d.name) with
  | some installed =>
    return if range.accepts (← installed.semver) then .met else .mismatched installed.id
  | none =>
    match matching with
    | (a, _) :: _ => return .mismatched a.id
    | [] => return .missing

namespace DependencyReport

/-- The report with the outcome of one more dependency of an application. -/
def add (report : DependencyReport) (applicationId : String) (dependency : Dependency) :
    DependencyOutcome → DependencyReport
  | .met => report
  | .missing => { report with missing := report.missing ++ [{ applicationId, dependency }] }
  | .mismatched installedId =>
    { report with
      mismatched := report.mismatched ++ [{ applicationId, dependency, installedId }] }

/-- The dependencies of candidates that neither a candidate nor an entitled application meets. -/
def check (candidates entitled : List Application) : Except Refusal DependencyReport :=
  (candidates.flatMap fun (a : Application) => a.dependencies.map fun d => (a.id, d)).foldlM
    (fun report (applicationId, d) =>
      (d.outcome candidates entitled).map (report.add applicationId d))
    {}

end DependencyReport

end Provisioning
