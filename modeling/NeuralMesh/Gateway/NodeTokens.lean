import NeuralMesh.Js.StringText

/-! The access token for one provider, among the environment variables of the process that asks it.
The manifest of the provider names them by its slug and its name, and its peer id does. -/
namespace NeuralMesh.Gateway

open Js

/-- What the resolution reads of a manifest. -/
structure TokenManifest where
  tokenSlug : Option JsString
  /-- `serverInfo?.name` -/
  serverName : Option JsString
  authRequired : Bool

/-- `process.env`, and the case mappings of strings. -/
structure TokenEnvironment where
  env : JsString → Option JsString
  toUpperCase : JsString → JsString
  toLowerCase : JsString → JsString

/-- A string that is truthy. -/
def usable : Option JsString → Option JsString
  | none | some [] => none
  | some (u :: text) => some (u :: text)

/-- `a || b` -/
def either (a b : Option JsString) : Option JsString :=
  match usable a with
  | some text => some text
  | none => b

/-- `/[^A-Z0-9_]/` does not match it. -/
def isNameUnit (u : CodeUnit) : Bool :=
  (65 ≤ u.toNat && u.toNat ≤ 90) || (48 ≤ u.toNat && u.toNat ≤ 57) || u.toNat == 95

def cleanName (text : JsString) : JsString := text.map fun u => if isNameUnit u then u else 95

namespace TokenEnvironment

variable (environment : TokenEnvironment) (peerId : JsString) (manifest : Option TokenManifest)

/-- The two variables of a key. -/
def variableOf (key : JsString) : Option JsString :=
  either (environment.env (js "LIOP_TOKEN_" ++ key)) (environment.env (js "LIOP_OAUTH_TOKEN_" ++ key))

def providerName : JsString :=
  environment.toLowerCase ((manifest.bind (·.serverName)).getD [])

/-- `peerId.slice(-8).toUpperCase()` -/
def shortId : JsString := environment.toUpperCase (peerId.drop (peerId.length - 8))

/-- The three resolutions, each made when the ones before it found nothing. -/
def nodeToken : Option JsString :=
  let bySlug := match usable (manifest.bind (·.tokenSlug)) with
    | some slug => environment.variableOf slug
    | none => none
  let byId := if peerId = [] then bySlug
    else either bySlug (environment.variableOf (environment.shortId peerId))
  if usable byId = none ∧ environment.providerName manifest ≠ [] then
    environment.variableOf
      (cleanName (environment.toUpperCase (environment.providerName manifest)))
  else byId

/-- The keys under which a provider is looked up, in this order. -/
def tokenKeys : List JsString :=
  (usable (manifest.bind (·.tokenSlug))).toList ++
    (if peerId = [] then [] else [environment.shortId peerId]) ++
    if environment.providerName manifest = [] then []
    else [cleanName (environment.toUpperCase (environment.providerName manifest))]

theorem usable_either (a b : Option JsString) :
    usable (either a b) = (usable a).or (usable b) := by
  rcases a with - | - | ⟨u, text⟩ <;> rfl

/-- The token that is found is the one of the first key that has any. -/
theorem usable_nodeToken :
    usable (environment.nodeToken peerId manifest) =
      (environment.tokenKeys peerId manifest).findSome? fun key =>
        usable (environment.variableOf key) := by
  have byName : ∀ byId : Option JsString,
      usable (if usable byId = none ∧ environment.providerName manifest ≠ [] then
        environment.variableOf
          (cleanName (environment.toUpperCase (environment.providerName manifest)))
        else byId) = (usable byId).or ((if environment.providerName manifest = [] then []
          else [cleanName (environment.toUpperCase
            (environment.providerName manifest))]).findSome? fun key =>
              usable (environment.variableOf key)) := by
    intro byId
    by_cases unnamed : environment.providerName manifest = []
    · simp [unnamed]
    · cases found : usable byId with
      | none => simp [unnamed]
      | some token => simp [found]
  rw [nodeToken, byName, tokenKeys, List.findSome?_append, List.findSome?_append]
  by_cases anonymous : peerId = []
  · rw [if_pos anonymous, if_pos anonymous]
    cases usable (manifest.bind (·.tokenSlug)) with
    | none => simp [usable]
    | some slug => simp
  · rw [if_neg anonymous, if_neg anonymous, usable_either]
    cases usable (manifest.bind (·.tokenSlug)) with
    | none => simp [usable]
    | some slug => simp

end TokenEnvironment

end NeuralMesh.Gateway
