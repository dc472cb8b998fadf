import GeloLightrag.Foundation.Linearization
import GeloLightrag.Foundation.Machine
import GeloLightrag.Keying.TwoPartyKdf
import Mathlib.Logic.Function.Basic

namespace TwoParty
open Foundation Keying Foundation.Linearization

-- What a service stands on: its key policy, the operating system's generator, of
-- which the n-th draw is a fixed secret, and the store of a knowledge graph.
structure Surroundings (Kg Params Store Query Ctx : Type) where
  hkdfPolicy : HkdfPolicyV2
  osRng : Nat → Bytes
  buildFromKg : Kg → Params → DerivedKeysV2 → Except String Store
  kgQuery : Store → Query → Bytes → Except String Ctx × Store

inductive Call (Kg Params Query : Type) where
  | ingestKgFor (tenantId : String) (userXSk : Bytes) (kg : Kg) (params : Params)
  | forgetTenant (tenantId : String)
  | tenantKnown (tenantId : String)
  | queryFor (tenantId : String) (query : Query) (sessionNonce : Bytes)

inductive Reply (Ctx : Type) where
  | done
  | known (is : Bool)
  | context (ctx : Ctx)
  | unknownTenant (tenantId : String)
  | failed (text : String)

-- The secret is the draw that made it.
structure Tenant (Store : Type) where
  teeUserXSk : Nat
  store : Store
  searchPatternKey : Bytes

-- Where a call stands between two of its steps. An ingest has its secret and the
-- branch that gave it: drawn, or read from the tenant.
inductive Phase (Kg Params Query : Type) where
  | invoked (call : Call Kg Params Query)
  | ingesting (tenantId : String) (userXSk : Bytes) (kg : Kg) (params : Params) (teeSk : Nat) (drew : Bool)
  | querying (tenantId : String) (query : Query) (sessionNonce : Bytes) (arc : Nat)
  | returned

-- `tenants` maps to shared tenants, which a call may hold after they have left it.
structure LightRagTwoPartyService (Kg Params Store Query Ctx : Type) where
  tenants : String → Option Nat
  arcs : List (Tenant Store)
  drawn : Nat
  calls : Nat → Option (Phase Kg Params Query)
  history : List (Event (Call Kg Params Query) (Reply Ctx))

inductive Label (Kg Params Query : Type) where
  | invoke (caller : Nat) (call : Call Kg Params Query)
  | advance (caller : Nat)

section
variable {Kg Params Store Query Ctx : Type} [HkdfSha256] [HmacSha256] (around : Surroundings Kg Params Store Query Ctx)

def Surroundings.derive (tenantId : String) (userXSk : Bytes) (teeSk : Nat) : DerivedKeysV2 :=
  around.hkdfPolicy.derive userXSk (around.osRng teeSk) tenantId

-- What an ingest makes of its arguments and the secret.
def Surroundings.build (tenantId : String) (userXSk : Bytes) (kg : Kg) (params : Params) (teeSk : Nat) : Except String (Tenant Store) := do
  let derived := around.derive tenantId userXSk teeSk
  let store ← around.buildFromKg kg params derived
  return ⟨teeSk,store,derived.searchPatternKey⟩

-- What a query makes of a tenant it has locked.
def Surroundings.ask (tenant : Tenant Store) (query : Query) (sessionNonce : Bytes) : Reply Ctx × Tenant Store :=
  let answered := around.kgQuery tenant.store query (HmacSha256.mac tenant.searchPatternKey sessionNonce)
  (match answered.1 with
    | .ok ctx => .context ctx
    | .error text => .failed text,{tenant with store:=answered.2})

namespace LightRagTwoPartyService

def new : LightRagTwoPartyService Kg Params Store Query Ctx := ⟨fun _ => none,[],0,fun _ => none,[]⟩

variable (service : LightRagTwoPartyService Kg Params Store Query Ctx)

def stand (caller : Nat) (phase : Phase Kg Params Query) : LightRagTwoPartyService Kg Params Store Query Ctx :=
  {service with calls:=Function.update service.calls caller (some phase)}

def finish (caller : Nat) (reply : Reply Ctx) : LightRagTwoPartyService Kg Params Store Query Ctx :=
  {service with
    calls:=Function.update service.calls caller (some .returned)
    history:=service.history ++ [.returned caller reply]}

def lookup (tenantId : String) : Option (Tenant Store) := (service.tenants tenantId).bind fun arc => service.arcs[arc]?

-- `or_create_tee_secret`, under the table's lock.
def orCreateTeeSecret (tenantId : String) : Nat × Bool :=
  match service.lookup tenantId with
  | some tenant => (tenant.teeUserXSk,false)
  | none => (service.drawn,true)

def insert (tenantId : String) (tenant : Tenant Store) : LightRagTwoPartyService Kg Params Store Query Ctx :=
  {service with
    tenants:=Function.update service.tenants tenantId (some service.arcs.length)
    arcs:=service.arcs ++ [tenant]}

def remove (tenantId : String) : LightRagTwoPartyService Kg Params Store Query Ctx :=
  {service with tenants:=Function.update service.tenants tenantId none}

-- The next step of a call: all it does while it holds a lock once, with what it
-- does before that without one.
def advance (caller : Nat) : Phase Kg Params Query → Option (LightRagTwoPartyService Kg Params Store Query Ctx)
  | .invoked (.tenantKnown tenantId) => some (service.finish caller (.known (service.tenants tenantId).isSome))
  | .invoked (.forgetTenant tenantId) => some ((service.remove tenantId).finish caller .done)
  | .invoked (.ingestKgFor tenantId userXSk kg params) =>
    let secret := service.orCreateTeeSecret tenantId
    some ({service with drawn:=if secret.2 then service.drawn + 1 else service.drawn}.stand caller
      (.ingesting tenantId userXSk kg params secret.1 secret.2))
  | .ingesting tenantId userXSk kg params teeSk _ =>
    match around.build tenantId userXSk kg params teeSk with
    | .error text => some (service.finish caller (.failed text))
    | .ok tenant => some ((service.insert tenantId tenant).finish caller .done)
  | .invoked (.queryFor tenantId query sessionNonce) =>
    match service.tenants tenantId with
    | none => some (service.finish caller (.unknownTenant tenantId))
    | some arc => some (service.stand caller (.querying tenantId query sessionNonce arc))
  | .querying _ query sessionNonce arc =>
    match service.arcs[arc]? with
    | none => none
    | some tenant =>
      let answered := around.ask tenant query sessionNonce
      some ({service with arcs:=service.arcs.set arc answered.2}.finish caller answered.1)
  | .returned => none

def step : Label Kg Params Query → Option (Unit × LightRagTwoPartyService Kg Params Store Query Ctx)
  | .invoke caller call =>
    match service.calls caller with
    | some _ => none
    | none => some ((),{service.stand caller (.invoked call) with history:=service.history ++ [.invoked caller call]})
  | .advance caller => (service.calls caller).bind fun phase => (service.advance around caller phase).map fun next => ((),next)

-- The table may not have changed against an ingest: when it inserts, the tenant
-- has the secret the ingest read, or is unknown still or again if it drew one.
def Unclashed : Label Kg Params Query → Prop
  | .invoke _ _ => True
  | .advance caller =>
    match service.calls caller with
    | some (.ingesting tenantId userXSk kg params teeSk drew) =>
      match around.build tenantId userXSk kg params teeSk with
      | .error _ => True
      | .ok _ => (service.lookup tenantId).map Tenant.teeUserXSk = if drew then none else some teeSk
    | _ => True

end LightRagTwoPartyService

-- One call after the other. The second part is the draws that have been made.
structure Table (Store : Type) where
  tenants : String → Option (Tenant Store)
  used : List Nat

def Table.new : Table Store := ⟨fun _ => none,[]⟩

def Sequentially (s : Table Store) : Call Kg Params Query → Reply Ctx → Table Store → Prop
  | .ingestKgFor tenantId userXSk kg params,reply,t => ∃ teeSk,
    (match s.tenants tenantId with
      | some tenant => teeSk = tenant.teeUserXSk ∧ t.used = s.used
      | none => teeSk ∉ s.used ∧ t.used = teeSk :: s.used) ∧
    match around.build tenantId userXSk kg params teeSk with
      | .error text => reply = .failed text ∧ t.tenants = s.tenants
      | .ok tenant => reply = .done ∧ t.tenants = Function.update s.tenants tenantId (some tenant)
  | .forgetTenant tenantId,reply,t => reply = .done ∧ t = ⟨Function.update s.tenants tenantId none,s.used⟩
  | .tenantKnown tenantId,reply,t => reply = .known (s.tenants tenantId).isSome ∧ t = s
  | .queryFor tenantId query sessionNonce,reply,t =>
    match s.tenants tenantId with
    | none => reply = .unknownTenant tenantId ∧ t = s
    | some tenant => reply = (around.ask tenant query sessionNonce).1 ∧
      t = ⟨Function.update s.tenants tenantId (some (around.ask tenant query sessionNonce).2),s.used⟩

end
end TwoParty
