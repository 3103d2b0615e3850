import Agent24.Library.Text
import Mathlib.Data.Finset.Basic

/-! Operations a bearer may be allowed, and the fixed routes that need them. -/

set_option autoImplicit false
namespace Agent24.Capability
open Library

inductive Operation where
  | modelsAdmin | componentInstall | workspaceCreate | workspaceRelease | hostLease | approvalDecision
  | grantManage | overrideManage | scheduleManage | moduleAdmin | capabilityMint | capabilityRevoke
  | knowledgeHost | idorisLifecycle | shutdown | modelsRead | workspaceResolve | sessionCreate | sessionRead
  | sessionTranscript | runCreate | runRead | runCancel | eventsRead | approvalStatusRead | healthRead
  | memoryRead | memoryForget | memorySettingsWrite | chatCreate | commRead | commWrite | moduleRead
  | scheduleRead | usageRead | configRead | consentRevoke | moduleRoute | presenceRead | presenceDecide
  | idorisRead | diagnosticRead | componentsRead | componentsReport
  deriving DecidableEq

inductive ResourceScope where
  | global | principal
  deriving DecidableEq

namespace Operation

def isPresenceChannel : Operation → Bool
  | presenceRead | presenceDecide => true
  | _ => false

def scope : Operation → ResourceScope
  | modelsRead => .global
  | _ => .principal

def creativeAllowlist : Finset Operation :=
  {modelsRead, workspaceResolve, sessionCreate, sessionRead, sessionTranscript, runCreate, runRead, runCancel,
    eventsRead, approvalStatusRead}

end Operation

inductive AssuranceLevel where
  | public_ | everyday | elevated
  deriving DecidableEq

structure RoutePolicy where
  method : String
  template : String
  operation : Operation
  level : AssuranceLevel

def row (method template : String) (operation : Operation) (level : AssuranceLevel) : RoutePolicy :=
  ⟨method, template, operation, level⟩

def policies : List RoutePolicy := [
  row "GET" "/api/v1/health" .healthRead .public_,
  row "GET" "/api/v1/diagnostics/migration" .diagnosticRead .everyday,
  row "GET" "/api/v1/diagnostics/migration/snapshots" .diagnosticRead .everyday,
  row "GET" "/api/v1/diagnostics/migration/space" .diagnosticRead .everyday,
  row "GET" "/api/v1/components" .componentsRead .everyday,
  row "POST" "/api/v1/components/\x7bid\x7d/report" .componentsReport .everyday,
  row "GET" "/api/v1/idoris/status" .idorisRead .everyday,
  row "POST" "/api/v1/idoris/install" .idorisLifecycle .elevated,
  row "POST" "/api/v1/idoris/connect" .idorisLifecycle .elevated,
  row "GET" "/api/v1/idoris/omlx/candidates" .idorisLifecycle .elevated,
  row "POST" "/api/v1/idoris/start" .idorisLifecycle .elevated,
  row "POST" "/api/v1/idoris/stop" .idorisLifecycle .elevated,
  row "GET" "/api/v1/idoris/operations/\x7bid\x7d" .idorisRead .everyday,
  row "POST" "/api/v1/idoris/operations/\x7bid\x7d/cancel" .idorisLifecycle .elevated,
  row "POST" "/api/v1/chat" .chatCreate .everyday,
  row "GET" "/api/v1/models" .modelsRead .everyday,
  row "GET" "/api/v1/decide/profile" .configRead .everyday,
  row "POST" "/api/v1/capabilities/creative" .capabilityMint .elevated,
  row "POST" "/api/v1/capabilities/\x7bcapability_id\x7d/revoke" .capabilityRevoke .elevated,
  row "GET" "/api/v1/usage" .usageRead .everyday,
  row "GET" "/api/v1/timings" .usageRead .everyday,
  row "GET" "/api/v1/timings/summary" .usageRead .everyday,
  row "GET" "/api/v1/tools" .configRead .everyday,
  row "GET" "/api/v1/module-consents" .configRead .everyday,
  row "GET" "/api/v1/module-consents/export" .configRead .everyday,
  row "DELETE" "/api/v1/module-consents/modules/\x7bmodule\x7d" .consentRevoke .everyday,
  row "DELETE" "/api/v1/module-consents/modules/\x7bmodule\x7d/tools/\x7btool\x7d" .consentRevoke .everyday,
  row "POST" "/api/v1/module-consents/modules/\x7bmodule\x7d/tools/\x7btool\x7d" .approvalDecision .elevated,
  row "GET" "/api/v1/module-consents/modules/\x7bmodule\x7d/tools/\x7btool\x7d/card" .configRead .everyday,
  row "GET" "/api/v1/tool-overrides" .configRead .everyday,
  row "GET" "/api/v1/standing-grants" .configRead .everyday,
  row "DELETE" "/api/v1/standing-grants/\x7bid\x7d" .grantManage .elevated,
  row "PUT" "/api/v1/tool-overrides/\x7bpattern\x7d" .overrideManage .elevated,
  row "DELETE" "/api/v1/tool-overrides/\x7bpattern\x7d" .overrideManage .elevated,
  row "GET" "/api/v1/memory/assertions" .memoryRead .everyday,
  row "DELETE" "/api/v1/memory/assertions/\x7bid\x7d" .memoryForget .everyday,
  row "GET" "/api/v1/memory/settings" .memoryRead .everyday,
  row "PUT" "/api/v1/memory/settings" .memorySettingsWrite .elevated,
  row "GET" "/api/v1/approvals" .approvalStatusRead .everyday,
  row "GET" "/api/v1/approvals/\x7bid\x7d" .approvalStatusRead .everyday,
  row "POST" "/api/v1/approvals/\x7bid\x7d" .approvalDecision .elevated,
  row "GET" "/api/v1/module-approvals" .approvalStatusRead .everyday,
  row "GET" "/api/v1/module-approvals/\x7bid\x7d" .approvalStatusRead .everyday,
  row "POST" "/api/v1/module-approvals/\x7bid\x7d" .approvalDecision .elevated,
  row "GET" "/api/v1/schedules" .scheduleRead .everyday,
  row "POST" "/api/v1/schedules" .scheduleManage .elevated,
  row "GET" "/api/v1/schedules/\x7bid\x7d" .scheduleRead .everyday,
  row "PATCH" "/api/v1/schedules/\x7bid\x7d" .scheduleManage .elevated,
  row "DELETE" "/api/v1/schedules/\x7bid\x7d" .scheduleManage .elevated,
  row "POST" "/api/v1/schedules/\x7bid\x7d/run_now" .scheduleManage .elevated,
  row "POST" "/api/v1/schedules/\x7bid\x7d/suspend" .scheduleManage .elevated,
  row "POST" "/api/v1/schedules/\x7bid\x7d/resume" .scheduleManage .elevated,
  row "GET" "/api/v1/events" .eventsRead .everyday,
  row "POST" "/api/v1/attached" .moduleAdmin .elevated,
  row "GET" "/api/v1/attached" .moduleRead .everyday,
  row "DELETE" "/api/v1/attached/\x7bname\x7d" .moduleAdmin .elevated,
  row "PATCH" "/api/v1/attached/\x7bname\x7d" .moduleAdmin .elevated,
  row "GET" "/api/v1/os" .moduleRead .everyday,
  row "PATCH" "/api/v1/os/\x7bname\x7d" .moduleAdmin .elevated,
  row "POST" "/api/v1/os/\x7bname\x7d/delegation" .moduleAdmin .elevated,
  row "POST" "/api/v1/os/\x7bname\x7d/stop" .moduleAdmin .elevated,
  row "POST" "/api/v1/os/\x7bname\x7d/commands/\x7bcommand\x7d" .moduleAdmin .elevated,
  row "POST" "/api/v1/shutdown" .shutdown .elevated,
  row "PUT" "/api/v1/host/knowledge/bindings/\x7bbinding_id\x7d" .knowledgeHost .elevated,
  row "DELETE" "/api/v1/host/knowledge/bindings/\x7bbinding_id\x7d" .knowledgeHost .elevated,
  row "PUT" "/api/v1/host/knowledge/bindings/\x7bbinding_id\x7d/credential" .knowledgeHost .elevated,
  row "DELETE" "/api/v1/host/knowledge/bindings/\x7bbinding_id\x7d/credential" .knowledgeHost .elevated,
  row "GET" "/api/v1/presence/challenges/next" .presenceRead .everyday,
  row "POST" "/api/v1/presence/challenges/\x7bid\x7d" .presenceDecide .everyday,
  row "GET" "/api/v1/shutdown" .configRead .everyday,
  row "POST" "/api/v1/sessions" .sessionCreate .everyday,
  row "GET" "/api/v1/sessions" .sessionRead .everyday,
  row "GET" "/api/v1/sessions/\x7bid\x7d" .sessionRead .everyday,
  row "POST" "/api/v1/runs" .runCreate .everyday,
  row "GET" "/api/v1/runs" .runRead .everyday,
  row "GET" "/api/v1/runs/\x7bid\x7d" .runRead .everyday,
  row "GET" "/api/v1/peer/runs" .runRead .everyday,
  row "GET" "/api/v1/peer/runs/\x7bid\x7d" .runRead .everyday,
  row "POST" "/api/v1/runs/\x7bid\x7d/cancel" .runCancel .everyday,
  row "POST" "/api/v1/comm/install" .componentInstall .elevated,
  row "GET" "/api/v1/comm/identity" .commRead .everyday,
  row "POST" "/api/v1/comm/identity" .commWrite .elevated,
  row "POST" "/api/v1/comm/identity/default" .commWrite .elevated,
  row "POST" "/api/v1/comm/identity/export" .commWrite .elevated,
  row "POST" "/api/v1/comm/identity/import" .commWrite .elevated,
  row "POST" "/api/v1/comm/unlock" .commWrite .elevated,
  row "GET" "/api/v1/comm/contact" .commRead .everyday,
  row "POST" "/api/v1/comm/contact" .commWrite .elevated,
  row "GET" "/api/v1/comm/relay" .commRead .everyday,
  row "PUT" "/api/v1/comm/relay" .commWrite .elevated,
  row "POST" "/api/v1/comm/relay/probe" .commWrite .elevated,
  row "POST" "/api/v1/comm/import" .commWrite .elevated,
  row "GET" "/api/v1/comm/daemon" .commRead .everyday,
  row "POST" "/api/v1/comm/daemon/start" .commWrite .elevated,
  row "POST" "/api/v1/comm/daemon/stop" .commWrite .elevated,
  row "POST" "/api/v1/comm/send" .commWrite .elevated,
  row "GET" "/api/v1/comm/history" .commRead .everyday,
  row "POST" "/api/v1/comm/inbox/pull" .commWrite .elevated,
  row "GET" "/api/v1/comm/outbox" .commRead .everyday,
  row "POST" "/api/v1/comm/outbox/\x7bevent_id\x7d/retry" .commWrite .elevated,
  row "POST" "/api/v1/comm/outbox/clear" .commWrite .elevated,
  row "GET" "/api/v1/comm/groupchat" .commRead .everyday,
  row "POST" "/api/v1/comm/groupchat" .commWrite .elevated,
  row "GET" "/api/v1/comm/groupchat/\x7bgroup_id\x7d/members" .commRead .everyday,
  row "GET" "/api/v1/comm/groupchat/\x7bgroup_id\x7d/invites" .commRead .everyday,
  row "GET" "/api/v1/comm/groupchat/\x7bgroup_id\x7d/messages" .commRead .everyday,
  row "POST" "/api/v1/comm/groupchat/\x7bgroup_id\x7d/messages" .commWrite .elevated,
  row "GET" "/api/v1/comm/groupchat/\x7bgroup_id\x7d/messages/\x7blogical_id\x7d" .commRead .everyday,
  row "POST" "/api/v1/comm/groupchat/\x7bgroup_id\x7d/messages/\x7blogical_id\x7d/retry" .commWrite .elevated,
  row "POST" "/api/v1/comm/groupchat/invites/\x7binvite_id\x7d/accept" .commWrite .elevated]

def segmentMatches (part given : String) : Bool :=
  part == given ||
    (part.toList.head? == some '\x7b' && part.toList.getLast? == some '\x7d' && given != "")

def templateMatches (template path : String) : Bool :=
  let parts := Text.split (· == '/') template
  let given := Text.split (· == '/') path
  parts.length == given.length && (parts.zip given).all fun pair => segmentMatches pair.1 pair.2

end Agent24.Capability
