import OptimisticStore.Duration
import OptimisticStore.Inspect

/-! Tuning of an engine and of its store. -/

namespace OptimisticStore

structure Config where
  /-- How often a body is run again after a conflict. -/
  maxRetries : Nat := 10
  /-- Raw rows fetched at a time. -/
  pageSize : Nat := 256
  /-- A registration whose heartbeat is older counts as abandoned. -/
  runningTxnTtl : Duration := .ofSeconds 60
  /-- A transaction renews its heartbeat at most this often. -/
  heartbeatInterval : Duration := .ofSeconds 10
  deriving DecidableEq

namespace Config

def withMaxRetries (c : Config) (n : Nat) : Config := { c with maxRetries := n }

/-- A page of no rows would never get on, so the least size is one. -/
def withPageSize (c : Config) (n : Nat) : Config := { c with pageSize := max n 1 }

def withRunningTxnTtl (c : Config) (d : Duration) : Config := { c with runningTxnTtl := d }

def withHeartbeatInterval (c : Config) (d : Duration) : Config :=
  { c with heartbeatInterval := d }

def inspect (c : Config) : String :=
  Inspect.record "Config"
    [("max_retries", c.maxRetries.repr), ("page_size", c.pageSize.repr),
      ("running_txn_ttl", c.runningTxnTtl.inspect),
      ("heartbeat_interval", c.heartbeatInterval.inspect)]

end Config
end OptimisticStore
