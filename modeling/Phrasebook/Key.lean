import Phrasebook.Digest.Blake3
import Phrasebook.FileKind
import Phrasebook.Path
import Phrasebook.Text.Target

/-!
Keys for new texts. What a key looks like is up to the generator, which is asked once for all new
texts of a file.
-/
namespace Phrasebook

structure KeyRequest where
  text : String
  file : FileInfo
  /-- The component around the text. -/
  hint : Option String
deriving DecidableEq, Repr

inductive KeyFault where
  /-- The generator failed, for a reason of its own. -/
  | failed (reason : String)
  | wrongCount (keys texts : Nat)
  | noKey (text : String)
deriving DecidableEq, Repr

def KeyFault.message : KeyFault → String
  | .failed reason => reason
  | .wrongCount keys texts =>
    "Key generator returned " ++ toString keys ++ " keys for " ++ toString texts ++ " texts"
  | .noKey text => "Key generator returned no key for \"" ++ text ++ "\""

/-- Gives one key for each request, in order, with a state of its own. -/
abbrev KeyGenerator (γ : Type) := List KeyRequest → γ → Except String (List String) × γ

/-- The key of a single text. -/
def KeyGenerator.one {γ : Type} (generate : KeyGenerator γ) (request : KeyRequest) (state : γ) :
    Except KeyFault String × γ :=
  match generate [request] state with
  | (.error reason, state) => (.error (.failed reason), state)
  | (.ok keys, state) =>
    match keys.getLast? with
    | some key => (.ok key, state)
    | none => (.error (.noKey request.text), state)

/-! ### Keys from the text -/

/-- The file's name up to its first dot, or the name of its directory if that is `index`. -/
def fileSegment (path : String) : String :=
  let stem := String.ofList (((Path.fileStem path).getD "").toList.takeWhile (· != '.'))
  if stem == "index" then (((Path.parent path).bind Path.fileName)).getD stem else stem

/-- The first part of a key: the component, or else the file. -/
def keyNamespace (request : KeyRequest) : String :=
  let component := (request.hint.map Text.lowerCamel).getD ""
  let file := Text.lowerCamel (fileSegment request.file.path)
  if component != "" then component else if file != "" then file else "common"

/-- A namespace and the first eight digits of the text's digest. -/
def hashKey (request : KeyRequest) : String :=
  keyNamespace request ++ "." ++ String.ofList ((Digest.Blake3.hex request.text).take 8)

/-- The built-in generator. It always gives the same key to the same text. -/
def hashKeys : KeyGenerator Unit := fun requests state => (.ok (requests.map hashKey), state)

end Phrasebook
