import SmbProxy.Library.CString

/-!
# MIME types

butil.c:1147-1340, with `BUTIL_SUPPORT_MULTIPART` and `BUTIL_SUPPORT_EXTENDED_MIME_TYPES` as
butil.h has them. A null pointer is `none`.
-/

set_option autoImplicit false

namespace SmbProxy.Model

open SmbProxy.Library

/-- `mime_content_type_t`; `type3gp`, `type3g2` and `type7z` are `butil_mime_3gp` and so on.
SOURCE: butil.h:120-195 -/
inductive MimeContentType
  | bin
  | css
  | gif
  | html
  | ico
  | jpeg
  | jar
  | js
  | json
  | text
  | tiff
  | xml
  | xwwwformurl
  | multi
  | aac
  | abw
  | arc
  | avi
  | azw
  | bz
  | bz2
  | csh
  | csv
  | doc
  | docx
  | eot
  | epub
  | ics
  | midi
  | mjs
  | mp3
  | mpeg
  | mpkg
  | odp
  | ods
  | odt
  | oga
  | ogv
  | ogx
  | otf
  | png
  | pdf
  | ppt
  | pptx
  | qt
  | rar
  | rtf
  | sh
  | svg
  | swf
  | tar
  | ts
  | ttf
  | vsd
  | wav
  | weba
  | webm
  | webp
  | woff
  | woff2
  | xhtml
  | xls
  | xlsx
  | xul
  | zip
  | type3gp
  | type3g2
  | type7z
  deriving DecidableEq

/-- `BUTIL_DEFAULT_MIME`. -/
def defaultMime : String := "text/plain"

/-- `butil_mime_entry_t`.
SOURCE: butil.c:1147-1153 -/
structure ButilMimeEntry where
  type : MimeContentType
  ext : String
  mime : String

/-- `s_mimetab`.
SOURCE: butil.c:1155-1235 -/
def sMimetab : List ButilMimeEntry :=
  [⟨.bin, ".bin", "application/octet-stream"⟩,
   ⟨.css, ".css", "text/css"⟩,
   ⟨.gif, ".gif", "image/gif"⟩,
   ⟨.html, ".htm", "text/html"⟩,
   ⟨.html, ".html", "text/html"⟩,
   ⟨.ico, ".ico", "image/x-icon"⟩,
   ⟨.jar, ".jar", "application/java-archive"⟩,
   ⟨.jpeg, ".jpeg", "image/jpeg"⟩,
   ⟨.jpeg, ".jpg", "image/jpeg"⟩,
   ⟨.js, ".js", "application/javascript"⟩,
   ⟨.json, ".json", "application/json"⟩,
   ⟨.text, ".text", "text/plain"⟩,
   ⟨.text, ".txt", "text/plain"⟩,
   ⟨.tiff, ".tif", "image/tiff"⟩,
   ⟨.tiff, ".tiff", "image/tiff"⟩,
   ⟨.xml, ".xml", "text/xml"⟩,
   ⟨.xwwwformurl, ".www", "application/x-www-form-urlencoded"⟩,
   ⟨.multi, ".", "multipart/form-data"⟩,
   ⟨.aac, ".aac", "audio/aac"⟩,
   ⟨.abw, ".abw", "application/x-abiword"⟩,
   ⟨.arc, ".arc", "application/octet-stream"⟩,
   ⟨.avi, ".avi", "video/x-msvideo"⟩,
   ⟨.azw, ".azw", "application/vnd.amazon.ebook"⟩,
   ⟨.bz, ".bz", "application/x-bzip"⟩,
   ⟨.bz2, ".bz2", "application/x-bzip2"⟩,
   ⟨.csh, ".csh", "application/x-csh"⟩,
   ⟨.csv, ".csv", "text/csv"⟩,
   ⟨.doc, ".doc", "application/msword"⟩,
   ⟨.docx, ".docx", "application/vnd.openxmlformats-officedocument.wordprocessingml.document"⟩,
   ⟨.eot, ".eot", "application/vnd.ms-fontobject"⟩,
   ⟨.epub, ".epub", "application/epub+zip"⟩,
   ⟨.ics, ".ics", "text/calendar"⟩,
   ⟨.midi, ".mid", "audio/midi"⟩,
   ⟨.midi, ".midi", "audio/midi"⟩,
   ⟨.mjs, ".mjs", "text/javascript"⟩,
   ⟨.mp3, ".mp3", "audio/mpeg"⟩,
   ⟨.mpeg, ".mpeg", "video/mpeg"⟩,
   ⟨.mpkg, ".mpkg", "application/vnd.apple.installer+xml"⟩,
   ⟨.qt, ".mov", "video/quicktime"⟩,
   ⟨.odp, ".odp", "application/vnd.oasis.opendocument.presentation"⟩,
   ⟨.ods, ".ods", "application/vnd.oasis.opendocument.spreadsheet"⟩,
   ⟨.odt, ".odt", "application/vnd.oasis.opendocument.text"⟩,
   ⟨.oga, ".oga", "audio/ogg"⟩,
   ⟨.ogv, ".ogv", "video/ogg"⟩,
   ⟨.ogx, ".ogx", "application/ogg"⟩,
   ⟨.otf, ".otf", "font/otf"⟩,
   ⟨.png, ".png", "image/png"⟩,
   ⟨.pdf, ".pdf", "application/pdf"⟩,
   ⟨.ppt, ".ppt", "application/vnd.ms-powerpoint"⟩,
   ⟨.pptx, ".pptx",
     "application/vnd.openxmlformats-officedocument.presentationml.presentation"⟩,
   ⟨.qt, ".qt", "video/quicktime"⟩,
   ⟨.rar, ".rar", "application/x-rar-compressed"⟩,
   ⟨.rtf, ".rtf", "application/rtf"⟩,
   ⟨.sh, ".sh", "application/x-sh"⟩,
   ⟨.svg, ".svg", "image/svg+xml"⟩,
   ⟨.swf, ".swf", "application/x-shockwave-flash"⟩,
   ⟨.tar, ".tar", "application/x-tar"⟩,
   ⟨.ts, ".ts", "application/typescript"⟩,
   ⟨.ttf, ".ttf", "font/ttf"⟩,
   ⟨.vsd, ".vsd", "application/vnd.visio"⟩,
   ⟨.wav, ".wav", "audio/x-wav"⟩,
   ⟨.weba, ".weba", "audio/webm"⟩,
   ⟨.webm, ".webm", "video/webm"⟩,
   ⟨.webp, ".webp", "image/webp"⟩,
   ⟨.woff, ".woff", "font/woff"⟩,
   ⟨.woff2, ".woff2", "font/woff2"⟩,
   ⟨.xhtml, ".xhtml", "application/xhtml+xml"⟩,
   ⟨.xls, ".xls", "application/vnd.ms-excel"⟩,
   ⟨.xlsx, ".xlsx",
     "application/vnd.ms-excel,application/vnd.openxmlformats-officedocument.spreadsheetml.sheet"⟩,
   ⟨.xul, ".xul", "application/vnd.mozilla.xul+xml"⟩,
   ⟨.zip, ".zip", "application/zip"⟩,
   ⟨.type3gp, ".3gp", "video/3gpp"⟩,
   ⟨.type3g2, ".3g2", "video/3gpp2"⟩,
   ⟨.type7z, ".7z", "application/x-7z-compressed"⟩]

/-- The scan for the last dot, from the index `i` down to the beginning.
SOURCE: butil.c:1248-1256, butil.c:1282-1290 -/
def scanDot (path : List UInt8) : ℕ → ℕ
  | 0 => 0
  | i + 1 => if path.getD (i + 1) 0 = 46 then i + 1 else scanDot path i

/-- The text behind the dot at which the scan ends, if it is one.
SOURCE: butil.c:1244-1261, butil.c:1278-1295 -/
def extension (path : List UInt8) : Option (List UInt8) :=
  let pext := scanDot path (path.length - 1)
  if path.getD pext 0 ≠ 46 then none else some (path.drop (pext + 1))

/-- The first entry with the extension.
SOURCE: butil.c:1263-1269, butil.c:1297-1303 -/
def entryForExtension (pext : List UInt8) : Option ButilMimeEntry :=
  sMimetab.find? fun entry => strcasecmp pext ((cstring entry.ext).drop 1) = 0

/-- `butil_mime_string_for_file`.
SOURCE: butil.c:1239-1271 -/
def butilMimeStringForFile (path : Option (List UInt8)) : List UInt8 :=
  match path with
  | none => cstring defaultMime
  | some path =>
    if path = [] then cstring defaultMime
    else
      match (extension path).bind entryForExtension with
      | some entry => cstring entry.mime
      | none => cstring defaultMime

/-- `butil_content_type_for_file`.
SOURCE: butil.c:1273-1305 -/
def butilContentTypeForFile (path : Option (List UInt8)) : MimeContentType :=
  match path with
  | none => .bin
  | some path =>
    if path = [] then .bin
    else
      match (extension path).bind entryForExtension with
      | some entry => entry.type
      | none => .bin

/-- `butil_mime_string_for_content_type`.
SOURCE: butil.c:1307-1320 -/
def butilMimeStringForContentType (type : MimeContentType) : List UInt8 :=
  match sMimetab.find? fun entry => type = entry.type with
  | some entry => cstring entry.mime
  | none => cstring defaultMime

/-- `butil_content_type_for_mime_string`.
SOURCE: butil.c:1322-1340 -/
def butilContentTypeForMimeString (mime : Option (List UInt8)) : MimeContentType :=
  match mime with
  | none => .bin
  | some mime =>
    if mime = [] then .bin
    else
      match sMimetab.find? fun entry =>
        strncasecmp mime (cstring entry.mime) (cstring entry.mime).length = 0 with
      | some entry => entry.type
      | none => .bin

end SmbProxy.Model
