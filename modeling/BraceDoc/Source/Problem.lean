import BraceDoc.Source.Diagnostic

/-!
# Problems

The causes that a run reports with a code. A cause fixes severity, code and wording; the place where
it arose is added when it becomes a diagnostic.
-/

set_option autoImplicit false

namespace BraceDoc

/-- A construct that reaches the end of its text without its closing delimiter. -/
inductive Unclosed where
  | command
  | literal (width : Nat)
  | comment
  deriving DecidableEq, Inhabited

namespace Unclosed

def code : Unclosed → String
  | .command => "E_UNTERMINATED_COMMAND"
  | .literal _ => "E_UNTERMINATED_LITERAL"
  | .comment => "E_UNTERMINATED_COMMENT"

def message : Unclosed → String
  | .command => "unterminated command block: '\x7b' has no closing '\x7d'"
  | .literal width =>
    "unterminated literal block: no closing " ++ String.ofList (List.replicate width '\x7d')
  | .comment => "unterminated block comment"

end Unclosed

inductive Problem where
  | unclosed (what : Unclosed)
  | fileNotFound (file : Path)
  | unreadable (file : Path) (reason : String)
  | importNotFound (target : String)
  | unlistable (directory : Path) (reason : String)
  | emptyDefinition
  | duplicateDefinition (name : String)
  | unknownCommand (name : String)
  | badSetting (reason : String)
  | pluginCrashed (plugin reason : String)
  | pluginNotLoaded (plugin reason : String)
  | noProvider (kind consumer : String)
  | pluginCycle
  | entryNotLoaded (file : Path)
  deriving DecidableEq, Inhabited

namespace Problem

def severity : Problem → Severity
  | .unlistable _ _ | .pluginNotLoaded _ _ | .noProvider _ _ | .pluginCycle => .warning
  | _ => .error

def code : Problem → String
  | .unclosed what => what.code
  | .fileNotFound _ => "E_FILE_NOT_FOUND"
  | .unreadable _ _ => "E_READ_FAILED"
  | .importNotFound _ => "E_IMPORT_NOT_FOUND"
  | .unlistable _ _ => "W_READ_DIR"
  | .emptyDefinition => "E_DEFINE_EMPTY"
  | .duplicateDefinition _ => "E_DEFINE_DUPLICATE"
  | .unknownCommand _ => "E_UNKNOWN_COMMAND"
  | .badSetting _ => "E_CONFIG_PARSE"
  | .pluginCrashed _ _ => "E_PLUGIN_CRASH"
  | .pluginNotLoaded _ _ => "W_PLUGIN_NOT_FOUND"
  | .noProvider _ _ => "W_NO_PROVIDER"
  | .pluginCycle => "W_PLUGIN_CYCLE"
  | .entryNotLoaded _ => "E_DOCGEN_ENTRY_NOT_LOADED"

def message : Problem → String
  | .unclosed what => what.message
  | .fileNotFound file => "file not found: " ++ file.text
  | .unreadable file reason => "failed to read " ++ file.text ++ ": " ++ reason
  | .importNotFound target => "import not found: \"" ++ target ++ "\""
  | .unlistable directory reason => "cannot read directory " ++ directory.text ++ ": " ++ reason
  | .emptyDefinition => "empty define name"
  | .duplicateDefinition name => "duplicate definition for \"" ++ name ++ "\""
  | .unknownCommand name => "unknown command \"" ++ name ++ "\""
  | .badSetting reason => "invalid config directive: " ++ reason
  | .pluginCrashed plugin reason => "plugin \"" ++ plugin ++ "\" crashed: " ++ reason
  | .pluginNotLoaded plugin reason => "plugin not loaded: " ++ plugin ++ ": " ++ reason
  | .noProvider kind consumer =>
    "no known plugin provides required artifact type \"" ++ kind ++ "\" (needed by " ++ consumer ++
      ")"
  | .pluginCycle => "plugin dependency cycle detected; falling back to input order"
  | .entryNotLoaded file => "docgen: entry document not loaded: " ++ file.text

def located (problem : Problem) (file : Option Path) (span : Option Span) : Diagnostic :=
  ⟨problem.severity, problem.message, file, span, some problem.code⟩

end Problem

end BraceDoc
