import Provisioning.Collaborator.Retry
import Provisioning.Entitlement.Capabilities
import Provisioning.Failure
import Provisioning.Text.Path

/-!
# Configurations

A configuration says where descriptors and the database are, how many workers there are, what the
installation can do and how often calls are tried.
-/

namespace Provisioning

/-- How often calls are tried, as a configuration says it. -/
structure RetrySettings where
  /-- The number of attempts; zero counts as one. -/
  maxAttempts : Nat := 3
  /-- The delay before the second attempt, in milliseconds. -/
  baseDelayMs : UInt64 := 200
  /-- The factor by which delays grow. -/
  factor : Binary64 := .ofFloat 2
  /-- The longest delay, in milliseconds. -/
  maxDelayMs : UInt64 := 5000
deriving DecidableEq, Repr

/-- What calls are tried with. -/
def RetrySettings.config (s : RetrySettings) : RetryConfig :=
  { maxAttempts := max 1 s.maxAttempts
    baseDelay := .ofMilliseconds s.baseDelayMs
    factor := s.factor
    maxDelay := .ofMilliseconds s.maxDelayMs }

/-- A configuration. -/
structure Config where
  /-- The directory of the descriptors. -/
  registryDir : String := "~/.config/entitlements/applications"
  /-- The file of the database. -/
  database : String := "~/.local/share/entitlements/state.db"
  /-- The number of workers. -/
  poolSize : Nat := 4
  /-- What the installation can do. -/
  capabilities : Capabilities := {}
  /-- How often calls are tried. -/
  retry : RetrySettings := {}
deriving DecidableEq, Repr

namespace Config

/-- Refuses a configuration without workers, or with delays that shrink. -/
def check (c : Config) : Except Failure Unit :=
  if c.poolSize = 0 then .error .noWorkers
  else if c.retry.factor.toFloat < 1 then .error .shrinkingDelays
  else .ok ()

/-- The directory of the descriptors, given the home directory. -/
def registryPath (c : Config) (home : String) : String := Path.expand home c.registryDir

/-- The file of the database, given the home directory. -/
def databasePath (c : Config) (home : String) : String := Path.expand home c.database

/-- The directory of configurations, given the home directory. -/
def directory (home : String) : String := Path.inside home ".config/entitlements"

/-- The files that are tried when none is named, in order. -/
def standardPaths (home : String) : List String :=
  ["config.toml", "config.json"].map (Path.inside (directory home))

end Config

end Provisioning
