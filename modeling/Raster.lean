import Raster.Command.Session
import Raster.Main
import Raster.Proofs.Copying
import Raster.Proofs.LayoutIndependence
import Raster.Proofs.Crop
import Raster.Proofs.TightAddressing
import Raster.Proofs.Combination
import Raster.Proofs.RegionBytes
import Raster.Proofs.RingCoverage
import Raster.Proofs.CornerPaint
import Raster.Proofs.CornerAgreement
import Raster.Proofs.Confinement
import Raster.Proofs.Footprint
import Raster.Proofs.CornerFootprint
import Raster.Proofs.OpFootprint
import Raster.Proofs.Commutation
import Raster.Proofs.Refusal
import Raster.Proofs.RenderFailure
import Raster.Proofs.Atomicity
import Raster.Proofs.Tiling
import Raster.Proofs.Turning
import Raster.Proofs.PixelAccess
import Raster.Proofs.Palette
import Raster.Proofs.Opacity
import Raster.Proofs.Acceptance
import Raster.Proofs.JsonText
import Raster.Proofs.JsonTree
import Raster.Proofs.Presentation
import Raster.Proofs.SceneFile
import Raster.Proofs.ScenePresentation
import Raster.Proofs.SteppedCorner
import Raster.Proofs.FileWrites
import Raster.Proofs.Mixing
import Raster.Proofs.SmoothCorner
import Raster.Proofs.RunSteps
import Raster.Proofs.RunOutcome
import Raster.Proofs.OutputNames
import Raster.Proofs.SolidSource
import Raster.Proofs.Shortcuts
import Raster.Proofs.Construction
import Raster.Proofs.EmptyRegion
import Raster.Proofs.InvertedCopy
import Raster.Proofs.UniformMask
import Raster.Proofs.InPlace
import Raster.Proofs.ArcOverflow
import Raster.Proofs.CornerOverflow
import Raster.Proofs.Neutral
import Raster.Proofs.Stripes
import Raster.Proofs.Premultiplication
import Raster.Proofs.Export
import Raster.Proofs.RectAlgebra
import Raster.Proofs.QuarterTurns
import Raster.Proofs.GrowingAlpha
import Raster.Proofs.Gradient
