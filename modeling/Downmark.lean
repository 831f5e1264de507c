import Downmark.Converter
import Downmark.Render.Frames
import Downmark.Rule.Template
import Downmark.Node.Editable
import Downmark.Config.Load
import Downmark.Proofs.FrameWalk
import Downmark.Proofs.EscapedText
import Downmark.Proofs.Collapsed
import Downmark.Proofs.SplitText
import Downmark.Proofs.Unescaped
import Downmark.Proofs.BlankElements
import Downmark.Proofs.OpenElements
import Downmark.Proofs.CollectorCalls
import Downmark.Proofs.Steady
import Downmark.Proofs.Surroundings
import Downmark.Proofs.Stacked
import Downmark.Proofs.PreparedBlocks
import Downmark.Proofs.Margins
import Downmark.Proofs.RuleTexts
import Downmark.Proofs.TidyTree
import Downmark.Proofs.NeatOutput
import Downmark.Proofs.BlockTexts
import Downmark.Proofs.Composed
import Downmark.Proofs.Integers
import Downmark.Proofs.ContainerLines
import Downmark.Proofs.Contained
import Downmark.Proofs.Outline
import Downmark.Proofs.OutlineText
import Downmark.Proofs.NumberedDocument
import Downmark.Proofs.InvisibleComments
import Downmark.Proofs.BlankLines
import Downmark.Proofs.LiteralDocuments
import Downmark.Proofs.ReadBack
import Downmark.Proofs.ResolvedOptions
import Downmark.Proofs.Totality
import Downmark.Proofs.Delimiters
import Downmark.Proofs.ResolvedReferences
import Downmark.Proofs.Registrations
import Downmark.Proofs.TableRules
import Downmark.Proofs.TableRows
import Downmark.Proofs.TableLines
import Downmark.Proofs.Scanned
import Downmark.Proofs.LinkTargets
import Downmark.Proofs.Straddling
import Downmark.Proofs.RegistryCalls
import Downmark.Proofs.LoadedFiles
import Downmark.Proofs.Fences
import Downmark.Proofs.TrimmedOutput
import Downmark.Proofs.KeptElements
import Downmark.Proofs.ShownCode
import Downmark.Proofs.RowBars
import Downmark.Proofs.FenceInfo
import Downmark.Proofs.LastGiven
import Downmark.Proofs.ReadTexts
import Downmark.Proofs.ItemNumbers
import Downmark.Proofs.HeadingLines
import Downmark.Proofs.StruckLines
import Downmark.Proofs.MistakenImages
import Downmark.Proofs.SiblingHints
import Downmark.Proofs.NearestFile
import Downmark.Proofs.Autolinks
import Downmark.Proofs.TrailingBreaks
import Downmark.Proofs.Joined
import Downmark.Proofs.FreeDelimiters
