/-!
What the JSON library says of texts that it cannot read. Its words and the positions in them are
its own, so they are left open; only that they hang on the text alone is taken for granted.
-/
namespace TypedApi

class JsonWording where
  /-- Of a text that is no JSON. -/
  notJson : (text : String) → String
  /-- Of a text that is not the envelope of a document. -/
  notReply : (text : String) → String

/-- Words that go into no details, for a program without that library. -/
@[reducible]
def JsonWording.terse : JsonWording where
  notJson _ := "not a JSON text"
  notReply _ := "not the envelope of a document"

end TypedApi
