import Hypersync.Peerd.PeersFile
import Hypersync.Priority

/-!
# The gateway's settings, as they are read

The priority tier and the failover are configured by environment variables.  Every
reader is lenient: an entry that is no address is dropped, a value that does not parse
gives way to the default, and a value out of range is moved to its bound.
-/

namespace Hypersync

open Peerd

/-! ## 1. Variables and their texts -/

inductive Setting
  | priorityPeers
  | priorityPeersExpected
  | priorityExclusive
  | priorityBootstrap
  | priorityMaxSessions
  | priorityStageMs
  | failoverStandbys
  | failoverStallMs
  | failoverLagMs
  | failoverDwellMs
  | failoverRotateMs
  | failoverRotateSecs
  | failoverStatusDir
deriving DecidableEq

def Setting.key : Setting → String
  | .priorityPeers => "HYPERSYNC_PRIORITY_PEERS"
  | .priorityPeersExpected => "HYPERSYNC_PRIORITY_PEERS_EXPECTED"
  | .priorityExclusive => "HYPERSYNC_PRIORITY_EXCLUSIVE"
  | .priorityBootstrap => "HYPERSYNC_PRIORITY_BOOTSTRAP"
  | .priorityMaxSessions => "HYPERSYNC_PRIORITY_MAX_SESSIONS"
  | .priorityStageMs => "HYPERSYNC_PRIORITY_STAGE_MS"
  | .failoverStandbys => "HYPERSYNC_FAILOVER_STANDBYS"
  | .failoverStallMs => "HYPERSYNC_FAILOVER_STALL_MS"
  | .failoverLagMs => "HYPERSYNC_FAILOVER_LAG_MS"
  | .failoverDwellMs => "HYPERSYNC_FAILOVER_DWELL_MS"
  | .failoverRotateMs => "HYPERSYNC_FAILOVER_ROTATE_MS"
  | .failoverRotateSecs => "HYPERSYNC_FAILOVER_ROTATE_SECS"
  | .failoverStatusDir => "HYPERSYNC_FAILOVER_STATUS_DIR"

/-- `std::env::var(key).ok()`: a value that is not text counts as unset. -/
abbrev Env := Setting → Option String

def U64_MAX : Nat := 18446744073709551615

def USIZE_MAX : Nat := 18446744073709551615

/-- `v.trim()` -/
def trimmed (v : String) : List Char := Text.trim v.toList

/-- `v.trim().is_empty()` -/
def blank (v : String) : Bool := (trimmed v).isEmpty

/-- `split_csv` -/
def splitCsv (v : String) : List String :=
  (((v.toList.splitOn ',').map Text.trim).filter fun s => !s.isEmpty).map String.ofList

def isQuote (c : Char) : Bool := c == '"' || c == '\''

/-- The word of a flag: trimmed, outer quotes dropped, in lower case. -/
def flagWord (v : String) : String :=
  String.ofList ((Text.trimMatches isQuote (trimmed v)).map Char.toLower)

/-! ## 2. The priority tier -/

inductive BootstrapPolicy
  | fallback
  | never
  | prefer
deriving DecidableEq

namespace BootstrapPolicy

def parse (v : String) : Option BootstrapPolicy :=
  match String.ofList ((trimmed v).map Char.toLower) with
  | "fallback" => some .fallback
  | "never" => some .never
  | "prefer" => some .prefer
  | _ => none

def asStr : BootstrapPolicy → String
  | .fallback => "fallback"
  | .never => "never"
  | .prefer => "prefer"

end BootstrapPolicy

/-- The body of the loop of `priority_peers_from_raw`; the entries that are no address are
    only counted. -/
def readPeer (acc : List String × Nat) (item : String) : List String × Nat :=
  match parseIpv4 item.toList with
  | some ip => (if acc.1.contains ip.toString then acc.1 else acc.1 ++ [ip.toString], acc.2)
  | none => (acc.1, acc.2 + 1)

def priorityPeersFromRaw (raw : String) : List String := ((splitCsv raw).foldl readPeer ([], 0)).1

def priorityPeersFromEnv (env : Env) : List String := priorityPeersFromRaw ((env .priorityPeers).getD "")

def DEFAULT_STAGE_MS : Nat := 1500

/-- `Duration::from_millis`, `Duration::from_secs` -/
def fromMillis (ms : Nat) : Nat := ms * 1000000

def fromSecs (s : Nat) : Nat := s * 1000000000

def exclusiveFromEnv (env : Env) : Bool :=
  (env .priorityExclusive).elim true fun v => !(["0", "false", "no", "off"].contains (flagWord v))

def bootstrapFromEnv (env : Env) (exclusive : Bool) : BootstrapPolicy :=
  match (env .priorityBootstrap).filter fun v => !blank v with
  | some v => (BootstrapPolicy.parse v).getD .fallback
  -- an exclusive tier also serves abci_state first
  | none => if exclusive then .prefer else .fallback

/-- The tier, with its bootstrap policy. -/
def PriorityTier.fromEnv (env : Env) : PriorityTier × BootstrapPolicy :=
  let exclusive := exclusiveFromEnv env
  let maxSessions := ((env .priorityMaxSessions).bind fun v => parseUnsigned USIZE_MAX (trimmed v)).getD 0
  let stageMs := ((env .priorityStageMs).bind fun v => parseUnsigned U64_MAX (trimmed v)).getD DEFAULT_STAGE_MS
  (.new (priorityPeersFromEnv env) maxSessions (fromMillis (max 200 (min stageMs 3000))) exclusive,
    bootstrapFromEnv env exclusive)

/-! ## 3. The failover -/

structure FailoverConfig where
  standbys : Nat
  stall : Nat
  lag : Nat
  minDwell : Nat
  -- 0 = never
  rotateSlower : Nat
  rotateEvery : Nat
  statusDir : Option String

/-- The closure `num` of `FailoverConfig::from_env`. -/
def num (env : Env) (k : Setting) (d : Nat) : Nat :=
  ((env k).bind fun v => parseUnsigned U64_MAX (trimmed v)).getD d

def FailoverConfig.fromEnv (env : Env) : FailoverConfig where
  standbys := min (num env .failoverStandbys 0) 16
  stall := fromMillis (max (num env .failoverStallMs 400) 50)
  lag := fromMillis (max (num env .failoverLagMs 150) 20)
  minDwell := fromMillis (num env .failoverDwellMs 10000)
  rotateSlower := fromMillis (num env .failoverRotateMs 100)
  rotateEvery := fromSecs (max (num env .failoverRotateSecs 60) 10)
  statusDir := (env .failoverStatusDir).filter fun v => !blank v

end Hypersync
