import Assets.Css.Scope
import Assets.Json.Printer
import Assets.Plugin.Capability

/-!
# Stylesheets as modules

A stylesheet becomes a script module that puts its text into the document and exports it.  The
sheet of a file named `*.module.css` is scoped first, and its module exports the scoped names by
the plain ones.
-/

namespace Assets.Css

/-- The module of a sheet: `css` and `source` are string literals, `result` is what the module
exports. -/
def moduleText (css source result : List Char) : List Char :=
  "const css = ".toList ++ css ++ ";\n".toList ++
  "if (typeof document !== \"undefined\") \x7b\n".toList ++
  "\tconst style = document.createElement(\"style\");\n".toList ++
  "\tstyle.setAttribute(\"data-bundle-id\", ".toList ++ source ++ ");\n".toList ++
  "\tstyle.textContent = css;\n".toList ++
  "\tdocument.head.appendChild(style);\n".toList ++
  "\x7d\n".toList ++
  "export default ".toList ++ result ++ ";\n".toList

def classDocument (classes : Dictionary String) : Json.Value :=
  .object (classes.map fun entry => (entry.1, .text entry.2))

/-- The name of the sheet behind a module name. -/
def sourceName (name : String) : String := (dropSuffix? ".js" name).getD name

def toModule (file : File) : File :=
  let source := sourceName file.name
  let sheetLiteral (sheet : String) := Json.literal sheet.toList
  let sourceLiteral := Json.literal source.toList
  let text :=
    if hasSuffix ".module.css" source then
      let result := scope file.content source
      moduleText (sheetLiteral result.sheet) sourceLiteral (classDocument result.classes).write
    else moduleText (sheetLiteral file.content) sourceLiteral "css".toList
  ⟨file.name, String.ofList text⟩

def resolver : Resolver :=
  fun id => .value (if hasSuffix ".css" id then some (id ++ ".js") else none)

def transformer : Transformer := fun file => .value (some (toModule file))

def plugin : Plugin := ⟨"css", some resolver, none, some transformer⟩

end Assets.Css
