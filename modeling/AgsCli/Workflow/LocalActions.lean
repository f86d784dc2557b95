import AgsCli.Protocol.Error

/-! # Local actions

The closed registry of handlers a `kind: local` step can name, with the inputs each accepts. -/
namespace LocalActions

structure LocalActionInput where
  name : String
  required : Bool
  description : String
  deriving DecidableEq, Repr

def dockerLoginInputs : List LocalActionInput :=
  [⟨"registry", true, "Container registry hostname to authenticate against."⟩,
   ⟨"username", true, "Registry username."⟩,
   ⟨"password", true, "Registry password or token (transported via stdin, never argv)."⟩]

def amsUploadInputs : List LocalActionInput :=
  [⟨"path", true, "Directory holding the built dedicated server."⟩,
   ⟨"executable", true, "Entrypoint to run, relative to the directory."⟩,
   ⟨"imageName", true, "Name of the AMS image to create."⟩,
   ⟨"targetArchitecture", false,
    "linux-x86_64 or linux-arm_64. Required for a shell-script entrypoint."⟩]

def lookup (name : String) : Option (List LocalActionInput) :=
  if name = "docker-login" then some dockerLoginInputs
  else if name = "ams/upload-image" then some amsUploadInputs
  else none

def knownNames : List String := ["ams/upload-image", "docker-login"]

end LocalActions
