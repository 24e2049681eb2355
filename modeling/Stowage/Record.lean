/-!
# Log records
-/

namespace Stowage

set_option autoImplicit false

inductive LogLevel where
  | trace
  | debug
  | info
  | warn
deriving DecidableEq, Repr, Inhabited

def LogLevel.name : LogLevel → String
  | trace => "TRACE"
  | debug => "DEBUG"
  | info => "INFO"
  | warn => "WARN"

structure LogRecord where
  level : LogLevel
  text : String
deriving DecidableEq, Repr, Inhabited

namespace LogRecord

def trace (text : String) : LogRecord := ⟨.trace, text⟩

def debug (text : String) : LogRecord := ⟨.debug, text⟩

def info (text : String) : LogRecord := ⟨.info, text⟩

def warn (text : String) : LogRecord := ⟨.warn, text⟩

end LogRecord

end Stowage
