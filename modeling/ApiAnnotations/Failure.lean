import ApiAnnotations.Json.Quoted

/-! # Failures

What ends a run. Unlike an error of the annotation language, a failure concerns the whole run: a
file or directory that cannot be used, metadata that cannot be read, or arguments that make no
sense. -/

namespace ApiAnnotations

/-- Why a run ends; paths are those that were used. -/
inductive Failure
  | unreadableFile (path : Text)
  | unreadableDirectory (path : Text)
  | unreadableMetadata (path : Text)
  | invalidMetadata (path : Text) (fault : Json.Fault)
  | unwritableMetadata (path : Text)
  | unwritableDirectory (path : Text)
  | unwritableFile (path : Text)
  | missingSource (path : Text)
  | sourceNotDirectory (path : Text)
  | noExtension
deriving DecidableEq

def Failure.message : Failure → Text
  | .unreadableFile path => "Failed to read file: ".toList ++ path
  | .unreadableDirectory path => "Failed to read source directory: ".toList ++ path
  | .unreadableMetadata path => "Failed to read metadata file: ".toList ++ path
  | .invalidMetadata path _ => "Invalid metadata file: ".toList ++ path
  | .unwritableMetadata path => "Failed to write metadata file: ".toList ++ path
  | .unwritableDirectory path => "Failed to create directory: ".toList ++ path
  | .unwritableFile path => "Failed to write to file: ".toList ++ path
  | .missingSource path => "Source directory does not exist: ".toList ++ path
  | .sourceNotDirectory path => "Source path is not a directory: ".toList ++ path
  | .noExtension => "At least one non-empty --ext is required"

end ApiAnnotations
