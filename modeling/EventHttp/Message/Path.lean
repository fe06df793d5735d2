import EventHttp.Text.Split

/-! Request paths: the documents behind short routes, and the media type that
goes with the name of a file. -/

namespace EventHttp.Path

def defaultDocument : String := "/index.html"

def pageRoutes : List String :=
  ["/index", "/register", "/login", "/welcome", "/video", "/picture"]

def normalize (path : String) : String :=
  if path = "" ∨ path = "/" then defaultDocument
  else if path ∈ pageRoutes then path ++ ".html"
  else path

def mediaTypes : List (String × String) :=
  [("html", "text/html"), ("htm", "text/html"), ("css", "text/css"), ("js", "text/javascript"),
    ("txt", "text/plain"), ("md", "text/plain"), ("csv", "text/csv"), ("xml", "text/xml"),
    ("json", "application/json"), ("pdf", "application/pdf"), ("zip", "application/zip"),
    ("gz", "application/x-gzip"), ("tar", "application/x-tar"),
    ("bin", "application/octet-stream"), ("png", "image/png"), ("jpg", "image/jpeg"),
    ("jpeg", "image/jpeg"), ("gif", "image/gif"), ("svg", "image/svg+xml"),
    ("ico", "image/x-icon"), ("mp3", "audio/mpeg"), ("wav", "audio/wav"), ("ogg", "audio/ogg"),
    ("mp4", "video/mp4"), ("mpg", "video/mpeg"), ("mpeg", "video/mpeg"), ("webm", "video/webm"),
    ("avi", "video/x-msvideo")]

def extension? (name : List Char) : Option (List Char) :=
  if '.' ∈ name then some (afterLast '.' name) else none

def mediaType (path : String) : String :=
  match extension? (afterLast '/' path.toList) with
  | none => "text/plain"
  | some ext =>
    (mediaTypes.lookup (String.ofList (ext.map Char.toLower))).getD "application/octet-stream"

end EventHttp.Path
