import Assets.Json.Printer
import Assets.Json.Reader
import Assets.Plugin.Capability

/-!
# Documents as modules

A JSON document becomes a script module whose default export is the document in compact form.
-/

namespace Assets.Json

def moduleText (document : Value) : List Char :=
  "export default ".toList ++ document.write ++ ";\n".toList

def toModule (file : File) : Except Fault File :=
  (parse file.content).map fun document => ⟨file.name, String.ofList (moduleText document)⟩

def resolver : Resolver :=
  fun id => .value (if hasSuffix ".json" id then some (id ++ ".js") else none)

def transformer : Transformer := fun file =>
  match toModule file with
  | .ok result => .value (some result)
  | .error fault => .failure (.json fault)

def plugin : Plugin := ⟨"json", some resolver, none, some transformer⟩

end Assets.Json
