import AttestedVault.Disk
import AttestedVault.Text.Blank

/-!
# The network and the disk

What the world outside answers to HTTP requests, and the files that are kept
between them. The answer may depend on how many requests came before.
-/

namespace AttestedVault

namespace Http

structure Response where
  status : Nat
  body : Bytes

/-- The usual words for a status. -/
def reasons : List (Nat × String) := [
  (100, "Continue"), (101, "Switching Protocols"), (102, "Processing"), (103, "Early Hints"),
  (200, "OK"), (201, "Created"), (202, "Accepted"), (203, "Non Authoritative Information"),
  (204, "No Content"), (205, "Reset Content"), (206, "Partial Content"), (207, "Multi-Status"),
  (208, "Already Reported"), (226, "IM Used"), (300, "Multiple Choices"),
  (301, "Moved Permanently"), (302, "Found"), (303, "See Other"), (304, "Not Modified"),
  (305, "Use Proxy"), (307, "Temporary Redirect"), (308, "Permanent Redirect"),
  (400, "Bad Request"), (401, "Unauthorized"), (402, "Payment Required"), (403, "Forbidden"),
  (404, "Not Found"), (405, "Method Not Allowed"), (406, "Not Acceptable"),
  (407, "Proxy Authentication Required"), (408, "Request Timeout"), (409, "Conflict"),
  (410, "Gone"), (411, "Length Required"), (412, "Precondition Failed"),
  (413, "Payload Too Large"), (414, "URI Too Long"), (415, "Unsupported Media Type"),
  (416, "Range Not Satisfiable"), (417, "Expectation Failed"), (418, "I'm a teapot"),
  (421, "Misdirected Request"), (422, "Unprocessable Entity"), (423, "Locked"),
  (424, "Failed Dependency"), (425, "Too Early"), (426, "Upgrade Required"),
  (428, "Precondition Required"), (429, "Too Many Requests"),
  (431, "Request Header Fields Too Large"), (451, "Unavailable For Legal Reasons"),
  (500, "Internal Server Error"), (501, "Not Implemented"), (502, "Bad Gateway"),
  (503, "Service Unavailable"), (504, "Gateway Timeout"), (505, "HTTP Version Not Supported"),
  (506, "Variant Also Negotiates"), (507, "Insufficient Storage"), (508, "Loop Detected"),
  (510, "Not Extended"), (511, "Network Authentication Required")]

def statusText (status : Nat) : String :=
  toString status ++ " " ++ (reasons.lookup status).getD "<unknown status code>"

def Response.isSuccess (r : Response) : Bool := 200 ≤ r.status && r.status < 300

end Http

structure Network where
  /-- What the request of this number for this URL gets; `none` is no connection. -/
  reply : Nat → String → Option Http.Response
  /-- The URLs that were asked for, in order. -/
  requests : List String
  disk : Disk

namespace Network

/-- One request. -/
def get (url : String) : StateM Network (Option Http.Response) := fun n =>
  (n.reply n.requests.length url, { n with requests := n.requests ++ [url] })

def readFile (path : String) : StateM Network (Except IoError Bytes) := fun n =>
  (n.disk.read path, n)

/-- Writes a file after creating its directory `dir`; failures go unnoticed. -/
def keepFile (dir path : String) (content : Bytes) : StateM Network Unit := fun n =>
  ((), { n with disk := n.disk.writeIn dir path content })

end Network

/-- What a key distribution service and a metadata endpoint answer. -/
structure Responses where
  chain : Option Http.Response
  vcek : Option Http.Response
  metadata : Option Http.Response

namespace Responses

def silent : Responses := ⟨none, none, none⟩

/-- The answer by what a URL asks for. -/
def reply (r : Responses) (url : String) : Option Http.Response :=
  if "/cert_chain".toList.isSuffixOf url.toList then r.chain
  else if Text.occursIn "?blSPL=".toList url.toList then r.vcek
  else r.metadata

/-- A network that always answers like this. -/
def network (r : Responses) (disk : Disk) : Network := ⟨fun _ url => r.reply url, [], disk⟩

end Responses

end AttestedVault
