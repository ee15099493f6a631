import Byteflow.Scheduler.Mailbox.Config

/-!
# Resource quotas

The budgets of one flow (`scheduler/quota.rs`). What a token bucket answers depends on the clock
and is taken as an input wherever a bucket is asked, so the buckets are left out here.
-/

namespace Byteflow

inductive QuotaError
  | cpuExhausted
  | memoryExhausted (requested limit : ℕ)
  | spawnRateExceeded
  | sendRateExceeded
  deriving DecidableEq

/-- `Display`. -/
def QuotaError.message : QuotaError → String
  | cpuExhausted => "flow CPU budget exhausted"
  | memoryExhausted requested limit =>
    "flow memory exhausted (requested " ++ toString requested ++ ", limit " ++ toString limit ++ ")"
  | spawnRateExceeded => "spawn rate exceeded"
  | sendRateExceeded => "send rate exceeded"

/-- What is copied onto every new flow. -/
structure QuotaConfig where
  cpuBudget : Int64
  memLimit : ℕ
  deriving DecidableEq

structure FlowQuota where
  cpuBudget : Int64
  memLimit : ℕ
  memUsed : ℕ
  deriving DecidableEq

namespace FlowQuota

def fromConfig (cfg : QuotaConfig) : FlowQuota := ⟨cfg.cpuBudget, cfg.memLimit, 0⟩

def remainingCpu (q : FlowQuota) : Int64 := max q.cpuBudget 0

def chargeCpu (q : FlowQuota) (cost : Int64) : Except QuotaError FlowQuota :=
  if q.cpuBudget - cost < 0 then .error .cpuExhausted
  else .ok { q with cpuBudget := q.cpuBudget - cost }

def alloc (q : FlowQuota) (bytes : ℕ) : Except QuotaError FlowQuota :=
  let next := satAdd q.memUsed bytes
  if q.memLimit < next then .error (.memoryExhausted bytes q.memLimit)
  else .ok { q with memUsed := next }

def free (q : FlowQuota) (bytes : ℕ) : FlowQuota := { q with memUsed := q.memUsed - bytes }

def topUpCpu (q : FlowQuota) (extra : Int64) : FlowQuota :=
  { q with cpuBudget := q.cpuBudget + extra }

def topUpMem (q : FlowQuota) (extra : ℕ) : FlowQuota :=
  { q with memLimit := (q.memLimit + extra) % 2 ^ 64 }

end FlowQuota

end Byteflow
