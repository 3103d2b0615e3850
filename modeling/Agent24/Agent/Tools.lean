import Agent24.Agent.Thread

/-! The tool registry: side-effect classes, user overrides, and the errors of a dispatch. -/

set_option autoImplicit false
namespace Agent24.Agent

inductive RiskClass where
  | read | writeLocal | exec | external
  deriving DecidableEq, Repr

namespace RiskClass

def requiresApproval : RiskClass → Bool
  | .read => false
  | _ => true

def escapeRank : RiskClass → Nat
  | .read => 3
  | .external => 2
  | .writeLocal => 1
  | .exec => 0

end RiskClass

structure ToolInfo where
  name : String
  source : String
  riskClass : RiskClass
  /-- `requires_outbound_policy`. -/
  outbound : Bool
  deriving DecidableEq, Repr

structure ToolRegistry where
  tools : String → Option ToolInfo
  allowed : String → Bool
  outboundGate : Bool
  interactiveGate : Bool
  overrides : String → Option RiskClass

namespace ToolRegistry
variable (tools : ToolRegistry)

/-- `effective_risk`: the user's class, which may not relax a builtin or module tool. -/
def effectiveRisk (info : ToolInfo) : RiskClass :=
  match (tools.overrides info.name).filter (· ≠ info.riskClass) with
  | none => info.riskClass
  | some override =>
    if (info.source = "builtin" ∨ info.source = "module") ∧
        override.escapeRank > info.riskClass.escapeRank then info.riskClass
    else override

def toolRiskClass (name : String) : Option RiskClass := (tools.tools (trim name)).map tools.effectiveRisk

def toolRequiresApproval (name : String) : Bool :=
  (tools.toolRiskClass name).any RiskClass.requiresApproval

end ToolRegistry

def shellRegistry : ToolRegistry where
  tools name := if name = "shell_exec" then some ⟨"shell_exec", "builtin", .exec, false⟩ else none
  allowed name := name == "shell_exec"
  outboundGate := false
  interactiveGate := true
  overrides _ := none

def shellCall (id : String) : ToolCallRequest := ⟨id, "shell_exec", ""⟩

inductive ToolError where
  | invalid (message : String)
  | denied (message : String)
  | failed (message : String)
  | timeout (budget : String)
  | cancelled
  | abortRun (message : String)
  | approvalStale
  deriving DecidableEq, Repr

namespace ToolError

def display : ToolError → String
  | .invalid message => "invalid: " ++ message
  | .denied message => "denied: " ++ message
  | .failed message => "failed: " ++ message
  | .timeout budget => "timed out after " ++ budget
  | .cancelled => "cancelled"
  | .abortRun message => "run aborted: " ++ message
  | .approvalStale =>
    "the approval no longer matches the current grant; call the tool again to be asked anew"

def stopsRun : ToolError → Bool
  | .cancelled | .abortRun _ => true
  | _ => false

end ToolError

/-- `GateDecision`, and the broker's verdict it renames. -/
inductive GateDecision where
  | allow
  | deny (reason : String)
  | abortRun (reason : String)
  deriving DecidableEq, Repr

def maxApprovalRounds : Nat := 3

end Agent24.Agent
