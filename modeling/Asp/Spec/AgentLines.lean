import Asp.Spec.Basic

/-! Lines of the agent adapter: `read_bounded_agent_line` over a reader that delivers its bytes
in buffers of any sizes. -/

namespace Asp

/-- What is still to come, and how many bytes beyond one each `fill_buf` shows at most. -/
structure LineReader where
  rest : Bytes
  sizes : ℕ → ℕ

namespace LineReader

def fillBuf (reader : LineReader) : Bytes := reader.rest.take (reader.sizes 0 + 1)

def consume (reader : LineReader) (count : ℕ) : LineReader :=
  ⟨reader.rest.drop count, fun n => reader.sizes (n + 1)⟩

end LineReader

/-- The part of a buffer up to its newline is kept, unless the line gets too long. -/
def takePiece (maximum : ℕ) (line : Bytes) (oversized : Bool) (piece : Bytes) : Bytes × Bool :=
  if oversized then (line, true)
  else if maximum - line.length < piece.length then (line, true)
  else (line ++ piece, false)

/-- The loop, with the result, the line and the reader that it leaves. Every round but the last
consumes a byte. -/
def lineLoop (maximum : ℕ) : ℕ → LineReader → Bytes → Bool → Option Bool × Bytes × LineReader
  | 0, reader, line, oversized => (some oversized, line, reader)
  | fuel + 1, reader, line, oversized =>
      let buffer := reader.fillBuf
      if buffer = [] then
        (if line = [] ∧ oversized = false then none else some oversized, line, reader)
      else
        let newline := buffer.findIdx? (· = 10)
        let consumed := newline.elim buffer.length (· + 1)
        let taken := takePiece maximum line oversized (buffer.take consumed)
        let reader := reader.consume consumed
        if newline.isSome then (some taken.2, taken.1, reader)
        else lineLoop maximum fuel reader taken.1 taken.2

def readBoundedAgentLine (maximum : ℕ) (reader : LineReader) : Option Bool × Bytes × LineReader :=
  lineLoop maximum (reader.rest.length + 1) reader [] false

def afterLines (maximum : ℕ) : ℕ → LineReader → LineReader
  | 0, reader => reader
  | calls + 1, reader => afterLines maximum calls (readBoundedAgentLine maximum reader).2.2

/-- The lines of a stream with their newlines; the last one may have none. -/
def streamLines : Bytes → List Bytes
  | [] => []
  | byte :: rest =>
      if byte = 10 then [byte] :: streamLines rest
      else (byte :: (streamLines rest).headD []) :: (streamLines rest).tail

end Asp
