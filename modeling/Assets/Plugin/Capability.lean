import Assets.Dictionary
import Assets.Plugin.Basic

/-!
# Ready-made capabilities

Resolvers, loaders and transformers that plugins and overrides are put together from.
-/

namespace Assets

/-- The text before a suffix, if the text ends with it. -/
def dropSuffix? (suffix text : String) : Option String :=
  if suffix.toList.isSuffixOf text.toList then
    some (String.ofList (text.toList.take (text.toList.length - suffix.toList.length)))
  else none

def hasSuffix (suffix text : String) : Bool := suffix.toList.isSuffixOf text.toList

namespace Resolver

def never : Resolver := fun _ => .value none

/-- Claims every file and keeps its id. -/
def same : Resolver := fun id => .value (some id)

def fixed (id : String) : Resolver := fun _ => .value (some id)

/-- Claims the ids with a suffix and puts another in its place. -/
def suffix (source target : String) : Resolver :=
  fun id => .value ((dropSuffix? source id).map (· ++ target))

def ofDictionary (ids : Dictionary String) : Resolver := fun id => .value (ids.find? id)

end Resolver

namespace Loader

def never : Loader := fun _ => .value none

def fixed (content : String) : Loader := fun _ => .value (some content)

def ofDictionary (contents : Dictionary String) : Loader := fun id => .value (contents.find? id)

end Loader

namespace Transformer

/-- Leaves every file to the plugins after it. -/
def never : Transformer := fun _ => .value none

def identity : Transformer := fun file => .value (some file)

def append (text : String) : Transformer :=
  fun file => .value (some ⟨file.name, file.content ++ text⟩)

def set (file : File) : Transformer := fun _ => .value (some file)

end Transformer

end Assets
