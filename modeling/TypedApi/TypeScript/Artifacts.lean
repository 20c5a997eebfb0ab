import TypedApi.DeclarationTree.OfPayload
import TypedApi.TypeScript.ClientFile
import TypedApi.TypeScript.Convention
import TypedApi.TypeScript.TypesFile

/-!
Both files for an endpoint. Each endpoint gets a registry of its own, and only a rejected collision
of names can make it fail.
-/
namespace TypedApi.TypeScript

structure Options where
  naming : NamingSettings := {}
  /-- The address of the call, where it is not the path of the endpoint. -/
  requestPath : Option String := none

structure Artifacts where
  types : String
  client : String
  /-- Absent when nothing is sent. -/
  requestType : Option String
  responseType : String
  functionName : String
  diagnostics : List Diagnostic

/-- The trees of an endpoint's request, if it has one, and response. -/
structure EndpointTrees where
  request : Option DeclarationTree
  response : DeclarationTree

def EndpointTrees.sections (trees : EndpointTrees) : List DeclarationTree :=
  trees.request.toList ++ [trees.response]

/-- The names of an endpoint as they are derived, before any of them is issued. -/
structure EndpointNames where
  request : String
  response : String
  function : String

def EndpointNames.derive (r : Registry) (endpoint : Endpoint) :
    EndpointNames × List Diagnostic :=
  let request := r.typeNameOrPlaceholder endpoint.path endpoint.method .request
  let response := r.typeNameOrPlaceholder endpoint.path endpoint.method .response
  let function := r.functionNameOrPlaceholder endpoint.path
  (⟨request.1, response.1, function.1⟩, request.2 ++ response.2 ++ function.2)

/-- Nothing is declared for a request that is not sent. -/
def declareRequest (payload : Payload) (candidate : String) : Walk (Option DeclarationTree) :=
  if payload.isPresent then some <$> DeclarationTree.ofPayload payload candidate else pure none

def declareEndpoint (endpoint : Endpoint) (names : EndpointNames) : Walk EndpointTrees := do
  let request ← declareRequest endpoint.request names.request
  let response ← DeclarationTree.ofPayload endpoint.response names.response
  return ⟨request, response⟩

namespace Options

/-- Every endpoint starts with a registry of its own. -/
def registry (options : Options) : Registry := ⟨options.naming, convention, []⟩

def names (options : Options) (endpoint : Endpoint) : EndpointNames :=
  (EndpointNames.derive options.registry endpoint).1

/-- The trees of an endpoint, with all diagnostics on the way to them. -/
def declare (options : Options) (endpoint : Endpoint) :
    Except NamingError EndpointTrees × WalkState :=
  (declareEndpoint endpoint (options.names endpoint)).run
    ⟨options.registry, (EndpointNames.derive options.registry endpoint).2⟩

/-- The allocations that declaring an endpoint makes. -/
def allocations (options : Options) (endpoint : Endpoint) : List Allocation :=
  (declareEndpoint endpoint (options.names endpoint)).allocations options.registry

end Options

def requestArgument (payload : Payload) : Option DeclarationTree → RequestArgument
  | none => .none
  | some tree => if payload.isQuery then .query tree.rootName else .body tree.rootName

namespace Artifacts

def assemble (options : Options) (endpoint : Endpoint) (functionName : String)
    (trees : EndpointTrees) (diagnostics : List Diagnostic) : Artifacts :=
  let request := requestArgument endpoint.request trees.request
  let responseType := trees.response.rootName
  { types := TypesFile.text ⟨endpoint.title, endpoint.path, endpoint.method, trees.sections⟩
    client := ClientFile.text
      { title := endpoint.title
        path := endpoint.path
        method := endpoint.method
        functionName
        url := options.requestPath.getD endpoint.path
        request
        responseType }
    requestType := request.type?
    responseType
    functionName
    diagnostics }

def generate (options : Options) (endpoint : Endpoint) : Except NamingError Artifacts :=
  match options.declare endpoint with
  | (.ok trees, state) =>
    .ok (assemble options endpoint (options.names endpoint).function trees state.diagnostics)
  | (.error e, _) => .error e

/-- The diagnostics worth showing to a user. -/
def warnings (a : Artifacts) : List Diagnostic := a.diagnostics.filter (·.isNotable)

end Artifacts
end TypedApi.TypeScript
