/-!
# Code under construction

Generated code grows at two places: the header, which collects declarations, and the body.  The
finished text is the header followed by the body.
-/

namespace TeenyBasic

/-- The two parts of a text under construction. -/
structure CodeBuffer where
  header : String
  body : String
  deriving DecidableEq, Repr

namespace CodeBuffer

/-- Nothing written yet. -/
def empty : CodeBuffer :=
  ⟨"", ""⟩

/-- Appends a piece of text to the body. -/
def write (buffer : CodeBuffer) (code : String) : CodeBuffer :=
  { buffer with body := buffer.body ++ code }

def writeLine (buffer : CodeBuffer) (code : String) : CodeBuffer :=
  buffer.write (code ++ "\n")

def writeHeader (buffer : CodeBuffer) (code : String) : CodeBuffer :=
  { buffer with header := buffer.header ++ (code ++ "\n") }

def code (buffer : CodeBuffer) : String :=
  buffer.header ++ buffer.body

@[simp] theorem header_writeLine (buffer : CodeBuffer) (code : String) :
    (buffer.writeLine code).header = buffer.header := rfl

@[simp] theorem body_writeLine (buffer : CodeBuffer) (code : String) :
    (buffer.writeLine code).body = buffer.body ++ (code ++ "\n") := rfl

@[simp] theorem header_writeHeader (buffer : CodeBuffer) (code : String) :
    (buffer.writeHeader code).header = buffer.header ++ (code ++ "\n") := rfl

@[simp] theorem body_writeHeader (buffer : CodeBuffer) (code : String) :
    (buffer.writeHeader code).body = buffer.body := rfl

end CodeBuffer

end TeenyBasic
